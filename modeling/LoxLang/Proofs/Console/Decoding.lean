import LoxLang.Text.Utf8
import Mathlib.Data.List.Basic

/-!
The texts that bytes spell. Decoding accepts just the encodings of texts, and gives the text that is
encoded.
-/

namespace LoxLang.Utf8

/-- Whether bytes are what is missing of a character. -/
def Pending.Completes (c : Char) : Pending → List UInt8 → Prop
  | _, [] => False
  | p, b :: tail =>
    p.least ≤ b.toNat ∧ b.toNat ≤ p.greatest ∧
      if p.owed ≤ 1 then tail = [] ∧ c = Char.ofNat (p.value * 0x40 + b.toNat % 0x40)
      else Completes c
        ⟨p.seen + 1, p.owed - 1, tailLeast, tailGreatest, p.value * 0x40 + b.toNat % 0x40⟩ tail

theorem toNat_ofNat {n : Nat} (h : n.isValidChar) : (Char.ofNat n).toNat = n := by
  unfold Char.ofNat
  rw [dif_pos h]
  rfl

/-- The bytes of a character with this number. -/
def spelling (n : Nat) : List Nat :=
  if n ≤ 0x7F then [n]
  else if n ≤ 0x7FF then [0xC0 + n / 0x40, 0x80 + n % 0x40]
  else if n ≤ 0xFFFF then [0xE0 + n / 0x1000, 0x80 + n / 0x40 % 0x40, 0x80 + n % 0x40]
  else [0xF0 + n / 0x40000, 0x80 + n / 0x1000 % 0x40, 0x80 + n / 0x40 % 0x40, 0x80 + n % 0x40]

theorem encodes_iff {c : Char} {bytes : List UInt8} :
    String.utf8EncodeChar c = bytes ↔ bytes.map UInt8.toNat = spelling c.toNat := by
  have hspelling : (String.utf8EncodeChar c).map UInt8.toNat = spelling c.toNat := by
    have hvalid := c.valid
    have hbyte {n k : Nat} (h : n = k) (hk : k < 0x100) : (UInt8.ofNat n).toNat = k := by
      rw [UInt8.toNat_ofNat', h]
      exact Nat.mod_eq_of_lt hk
    unfold String.utf8EncodeChar spelling Char.toNat
    dsimp only
    split
    · simp only [List.map_cons, List.map_nil, List.cons.injEq, and_true]
      exact hbyte rfl (by omega)
    · split
      · simp only [List.map_cons, List.map_nil, List.cons.injEq, and_true]
        exact ⟨hbyte (by omega) (by omega), hbyte (by omega) (by omega)⟩
      · split
        · simp only [List.map_cons, List.map_nil, List.cons.injEq, and_true]
          exact ⟨hbyte (by omega) (by omega), hbyte (by omega) (by omega),
            hbyte (by omega) (by omega)⟩
        · simp only [List.map_cons, List.map_nil, List.cons.injEq, and_true]
          exact ⟨hbyte (by omega) (by omega), hbyte (by omega) (by omega),
            hbyte (by omega) (by omega), hbyte (by omega) (by omega)⟩
  rw [← hspelling]
  constructor
  · rintro rfl
    rfl
  · exact fun h => (List.map_injective_iff.mpr (fun _ _ => UInt8.toNat_inj.mp) h).symm

/-- The bytes of a character that takes one. -/
theorem encodes_one {b : UInt8} (hb : b.toNat < 0x80) (c : Char) (tail : List UInt8) :
    String.utf8EncodeChar c = b :: tail ↔ tail = [] ∧ c = Char.ofNat b.toNat := by
  rw [encodes_iff, List.map_cons]
  constructor
  · intro h
    unfold spelling at h
    split at h
    · obtain ⟨hn, htail⟩ := List.cons.inj h
      rw [hn, Char.ofNat_toNat]
      exact ⟨List.map_eq_nil_iff.mp htail, rfl⟩
    · have hlead : 0xC0 ≤ b.toNat := by
        split at h
        · exact (List.cons.inj h).1 ▸ Nat.le_add_right _ _
        · split at h
          · have := (List.cons.inj h).1
            omega
          · have := (List.cons.inj h).1
            omega
      omega
  · rintro ⟨rfl, rfl⟩
    rw [toNat_ofNat (.inl (by omega)), spelling, if_pos (by omega)]
    rfl

section

variable {c : Char} {seen least greatest value : Nat} {tail : List UInt8}

theorem Pending.completes_one : Completes c ⟨seen, 1, least, greatest, value⟩ tail ↔
    ∃ b₁, tail = [b₁] ∧ least ≤ b₁.toNat ∧ b₁.toNat ≤ greatest ∧
      c = Char.ofNat (value * 0x40 + b₁.toNat % 0x40) := by
  cases tail with
  | nil => simp [Completes]
  | cons b₁ tail => simp [Completes]; tauto

theorem Pending.completes_two : Completes c ⟨seen, 2, least, greatest, value⟩ tail ↔
    ∃ b₁ b₂, tail = [b₁, b₂] ∧ least ≤ b₁.toNat ∧ b₁.toNat ≤ greatest ∧
      tailLeast ≤ b₂.toNat ∧ b₂.toNat ≤ tailGreatest ∧
      c = Char.ofNat ((value * 0x40 + b₁.toNat % 0x40) * 0x40 + b₂.toNat % 0x40) := by
  cases tail with
  | nil => simp [Completes]
  | cons b₁ tail =>
    rw [Completes, if_neg (by simp)]
    dsimp only
    rw [completes_one]
    simp
    tauto

theorem Pending.completes_three : Completes c ⟨seen, 3, least, greatest, value⟩ tail ↔
    ∃ b₁ b₂ b₃, tail = [b₁, b₂, b₃] ∧ least ≤ b₁.toNat ∧ b₁.toNat ≤ greatest ∧
      tailLeast ≤ b₂.toNat ∧ b₂.toNat ≤ tailGreatest ∧
      tailLeast ≤ b₃.toNat ∧ b₃.toNat ≤ tailGreatest ∧
      c = Char.ofNat (((value * 0x40 + b₁.toNat % 0x40) * 0x40 + b₂.toNat % 0x40) * 0x40 +
        b₃.toNat % 0x40) := by
  cases tail with
  | nil => simp [Completes]
  | cons b₁ tail =>
    rw [Completes, if_neg (by simp)]
    dsimp only
    rw [completes_two]
    simp
    tauto

end

section

variable {b : Nat}

theorem Pending.ofLead?_two (h : 0xC2 ≤ b ∧ b ≤ 0xDF) :
    ofLead? b = some ⟨1, 1, tailLeast, tailGreatest, b % 0x20⟩ :=
  if_pos h

theorem Pending.ofLead?_three (h : 0xE0 ≤ b ∧ b ≤ 0xEF) :
    ofLead? b = some ⟨1, 2, if b = 0xE0 then 0xA0 else tailLeast,
      if b = 0xED then 0x9F else tailGreatest, b % 0x10⟩ := by
  unfold ofLead?
  rw [if_neg (by omega)]
  by_cases hfirst : b = 0xE0
  · subst hfirst
    rfl
  · by_cases hsurrogates : b = 0xED
    · subst hsurrogates
      rfl
    · rw [if_neg hfirst, if_neg hsurrogates, if_pos (by omega), if_neg hfirst, if_neg hsurrogates]

theorem Pending.ofLead?_four (h : 0xF0 ≤ b ∧ b ≤ 0xF4) :
    ofLead? b = some ⟨1, 3, if b = 0xF0 then 0x90 else tailLeast,
      if b = 0xF4 then 0x8F else tailGreatest, b % 0x8⟩ := by
  unfold ofLead?
  rw [if_neg (by omega), if_neg (by omega), if_neg (by omega), if_neg (by omega)]
  by_cases hfirst : b = 0xF0
  · subst hfirst
    rfl
  · by_cases hlast : b = 0xF4
    · subst hlast
      rfl
    · rw [if_neg hfirst, if_pos (by omega), if_neg hfirst, if_neg hlast]

theorem Pending.ofLead?_none (h : b < 0xC2 ∨ 0xF4 < b) : ofLead? b = none := by
  unfold ofLead?
  rw [if_neg (by omega), if_neg (by omega), if_neg (by omega), if_neg (by omega),
    if_neg (by omega), if_neg (by omega), if_neg (by omega)]

end

/-- The first byte of a character that takes more than one promises the others. -/
theorem Pending.promised {b : UInt8} {c : Char} {tail : List UInt8} (hb : 0x80 ≤ b.toNat)
    (h : (b :: tail).map UInt8.toNat = spelling c.toNat) :
    ∃ p, ofLead? b.toNat = some p ∧ p.Completes c tail := by
  have hvalid : c.toNat.isValidChar := c.valid
  have hc {n : Nat} (hn : n = c.toNat) : c = Char.ofNat n := by
    rw [hn, Char.ofNat_toNat]
  unfold Nat.isValidChar at hvalid
  rw [List.map_cons] at h
  unfold spelling at h
  split at h
  · have := (List.cons.inj h).1
    omega
  · split at h
    · obtain ⟨hlead, htail⟩ := List.cons.inj h
      obtain ⟨b₁, rfl, hb₁⟩ := List.map_eq_singleton_iff.mp htail
      refine ⟨_, ofLead?_two (by omega), completes_one.mpr ⟨b₁, rfl, ?_, ?_, hc (by omega)⟩⟩
      · exact hb₁ ▸ Nat.le_add_right _ _
      · unfold tailGreatest
        omega
    · split at h
      · obtain ⟨hlead, htail⟩ := List.cons.inj h
        obtain ⟨b₁, tail, rfl, hb₁, htail⟩ := List.map_eq_cons_iff.mp htail
        obtain ⟨b₂, rfl, hb₂⟩ := List.map_eq_singleton_iff.mp htail
        refine ⟨_, ofLead?_three (by omega), completes_two.mpr
          ⟨b₁, b₂, rfl, ?_, ?_, ?_, ?_, hc (by omega)⟩⟩
        · unfold tailLeast
          split <;> omega
        · unfold tailGreatest
          split <;> omega
        · exact hb₂ ▸ Nat.le_add_right _ _
        · unfold tailGreatest
          omega
      · obtain ⟨hlead, htail⟩ := List.cons.inj h
        obtain ⟨b₁, tail, rfl, hb₁, htail⟩ := List.map_eq_cons_iff.mp htail
        obtain ⟨b₂, tail, rfl, hb₂, htail⟩ := List.map_eq_cons_iff.mp htail
        obtain ⟨b₃, rfl, hb₃⟩ := List.map_eq_singleton_iff.mp htail
        refine ⟨_, ofLead?_four (by omega), completes_three.mpr
          ⟨b₁, b₂, b₃, rfl, ?_, ?_, ?_, ?_, ?_, ?_, hc (by omega)⟩⟩
        · unfold tailLeast
          split <;> omega
        · unfold tailGreatest
          split <;> omega
        · exact hb₂ ▸ Nat.le_add_right _ _
        · unfold tailGreatest
          omega
        · exact hb₃ ▸ Nat.le_add_right _ _
        · unfold tailGreatest
          omega

/-- What is complete by the promise of its first byte is a character. -/
theorem Pending.kept {b : UInt8} {p : Pending} {c : Char} {tail : List UInt8}
    (hp : ofLead? b.toNat = some p) (h : p.Completes c tail) :
    (b :: tail).map UInt8.toNat = spelling c.toNat := by
  have least {n k : Nat} {P : Prop} [Decidable P] (hn : tailLeast ≤ n)
      (h : (if P then n else tailLeast) ≤ k) : 0x80 ≤ k ∧ (P → n ≤ k) := by
    unfold tailLeast at hn h
    split at h
    · exact ⟨by omega, fun _ => h⟩
    · exact ⟨h, fun hP => (‹¬P› hP).elim⟩
  have greatest {n k : Nat} {P : Prop} [Decidable P] (hn : n ≤ tailGreatest)
      (h : k ≤ if P then n else tailGreatest) : k ≤ 0xBF ∧ (P → k ≤ n) := by
    unfold tailGreatest at hn h
    split at h
    · exact ⟨by omega, fun _ => h⟩
    · exact ⟨h, fun hP => (‹¬P› hP).elim⟩
  by_cases htwo : 0xC2 ≤ b.toNat ∧ b.toNat ≤ 0xDF
  · rw [ofLead?_two htwo] at hp
    cases hp
    obtain ⟨b₁, rfl, hleast, hgreatest, rfl⟩ := completes_one.mp h
    unfold tailLeast at hleast
    unfold tailGreatest at hgreatest
    rw [toNat_ofNat (.inl (by omega)), spelling, if_neg (by omega), if_pos (by omega)]
    simp only [List.map_cons, List.map_nil, List.cons.injEq, and_true]
    omega
  · by_cases hthree : 0xE0 ≤ b.toNat ∧ b.toNat ≤ 0xEF
    · rw [ofLead?_three hthree] at hp
      cases hp
      obtain ⟨b₁, b₂, rfl, hleast, hgreatest, hleast₂, hgreatest₂, rfl⟩ := completes_two.mp h
      obtain ⟨hleast, hfirst⟩ := least (by decide) hleast
      obtain ⟨hgreatest, hsurrogates⟩ := greatest (by decide) hgreatest
      unfold tailLeast at hleast₂
      unfold tailGreatest at hgreatest₂
      have hvalid : ((b.toNat % 0x10 * 0x40 + b₁.toNat % 0x40) * 0x40 +
          b₂.toNat % 0x40).isValidChar := by
        unfold Nat.isValidChar
        omega
      rw [toNat_ofNat hvalid, spelling, if_neg (by omega), if_neg (by omega), if_pos (by omega)]
      simp only [List.map_cons, List.map_nil, List.cons.injEq, and_true]
      omega
    · by_cases hfour : 0xF0 ≤ b.toNat ∧ b.toNat ≤ 0xF4
      · rw [ofLead?_four hfour] at hp
        cases hp
        obtain ⟨b₁, b₂, b₃, rfl, hleast, hgreatest, hleast₂, hgreatest₂, hleast₃, hgreatest₃,
          rfl⟩ := completes_three.mp h
        obtain ⟨hleast, hfirst⟩ := least (by decide) hleast
        obtain ⟨hgreatest, hlast⟩ := greatest (by decide) hgreatest
        unfold tailLeast at hleast₂ hleast₃
        unfold tailGreatest at hgreatest₂ hgreatest₃
        have hvalid : (((b.toNat % 0x8 * 0x40 + b₁.toNat % 0x40) * 0x40 + b₂.toNat % 0x40) * 0x40 +
            b₃.toNat % 0x40).isValidChar := by
          unfold Nat.isValidChar
          omega
        rw [toNat_ofNat hvalid, spelling, if_neg (by omega), if_neg (by omega), if_neg (by omega)]
        simp only [List.map_cons, List.map_nil, List.cons.injEq, and_true]
        omega
      · rw [ofLead?_none (by omega)] at hp
        cases hp

theorem Pending.encodes_iff {b : UInt8} (hb : 0x80 ≤ b.toNat) {c : Char} {tail : List UInt8} :
    String.utf8EncodeChar c = b :: tail ↔ ∃ p, ofLead? b.toNat = some p ∧ p.Completes c tail := by
  rw [Utf8.encodes_iff]
  exact ⟨promised hb, fun ⟨p, hp, h⟩ => kept hp h⟩

/-- Whether bytes spell these characters, after the bytes that are read of the first of them. -/
def Spells : Option Pending → List Char → List UInt8 → Prop
  | none, cs, bytes => cs.flatMap String.utf8EncodeChar = bytes
  | some p, cs, bytes => ∃ c later tail, cs = c :: later ∧ p.Completes c tail ∧
      tail ++ later.flatMap String.utf8EncodeChar = bytes

section

variable {b : UInt8} {bytes : List UInt8} {cs : List Char}

theorem spells_nil {pending : Option Pending} :
    Spells pending cs [] ↔ pending = none ∧ cs = [] := by
  cases pending with
  | none =>
    rw [and_iff_right rfl]
    constructor
    · intro h
      cases cs with
      | nil => rfl
      | cons c later => exact (String.utf8EncodeChar_ne_nil (List.append_eq_nil_iff.mp h).1).elim
    · rintro rfl
      rfl
  | some p =>
    refine iff_of_false ?_ fun h => nomatch h.1
    rintro ⟨c, later, tail, -, hc, h⟩
    obtain ⟨rfl, -⟩ := List.append_eq_nil_iff.mp h
    exact hc.elim

/-- The first character has the first byte. -/
theorem spells_cons : Spells none cs (b :: bytes) ↔ ∃ c later tail, cs = c :: later ∧
    String.utf8EncodeChar c = b :: tail ∧ tail ++ later.flatMap String.utf8EncodeChar = bytes := by
  constructor
  · intro h
    cases cs with
    | nil => cases h
    | cons c later =>
      have h : String.utf8EncodeChar c ++ later.flatMap String.utf8EncodeChar = b :: bytes := h
      cases hc : String.utf8EncodeChar c with
      | nil => exact (String.utf8EncodeChar_ne_nil hc).elim
      | cons b' tail =>
        rw [hc] at h
        obtain ⟨rfl, hlater⟩ := List.cons.inj h
        exact ⟨c, later, tail, rfl, hc, hlater⟩
  · rintro ⟨c, later, tail, rfl, hc, rfl⟩
    show String.utf8EncodeChar c ++ later.flatMap String.utf8EncodeChar = _
    rw [hc]
    rfl

/-- A character that takes one byte. -/
theorem spells_one (hb : b.toNat < 0x80) : Spells none cs (b :: bytes) ↔
    ∃ later, cs = Char.ofNat b.toNat :: later ∧ Spells none later bytes := by
  rw [spells_cons]
  constructor
  · rintro ⟨c, later, tail, rfl, hc, h⟩
    obtain ⟨rfl, rfl⟩ := (encodes_one hb c tail).mp hc
    exact ⟨later, rfl, h⟩
  · rintro ⟨later, rfl, h⟩
    exact ⟨_, later, [], rfl, (encodes_one hb _ _).mpr ⟨rfl, rfl⟩, h⟩

/-- A character that takes more than one byte. -/
theorem spells_lead (hb : 0x80 ≤ b.toNat) : Spells none cs (b :: bytes) ↔
    ∃ p, Pending.ofLead? b.toNat = some p ∧ Spells (some p) cs bytes := by
  rw [spells_cons]
  constructor
  · rintro ⟨c, later, tail, rfl, hc, h⟩
    obtain ⟨p, hp, hc⟩ := (Pending.encodes_iff hb).mp hc
    exact ⟨p, hp, c, later, tail, rfl, hc, h⟩
  · rintro ⟨p, hp, c, later, tail, rfl, hc, h⟩
    exact ⟨c, later, tail, rfl, (Pending.encodes_iff hb).mpr ⟨p, hp, hc⟩, h⟩

/-- A byte that is owed. -/
theorem spells_owed {p : Pending} : Spells (some p) cs (b :: bytes) ↔
    p.least ≤ b.toNat ∧ b.toNat ≤ p.greatest ∧
      if p.owed ≤ 1 then ∃ later, cs = Char.ofNat (p.value * 0x40 + b.toNat % 0x40) :: later ∧
        Spells none later bytes
      else Spells (some ⟨p.seen + 1, p.owed - 1, tailLeast, tailGreatest,
        p.value * 0x40 + b.toNat % 0x40⟩) cs bytes := by
  constructor
  · rintro ⟨c, later, tail, rfl, hc, h⟩
    cases tail with
    | nil => exact hc.elim
    | cons b' tail =>
      obtain ⟨rfl, hbytes⟩ := List.cons.inj h
      obtain ⟨hleast, hgreatest, hc⟩ := hc
      refine ⟨hleast, hgreatest, ?_⟩
      by_cases howed : p.owed ≤ 1
      · rw [if_pos howed] at hc ⊢
        obtain ⟨rfl, rfl⟩ := hc
        exact ⟨later, rfl, hbytes⟩
      · rw [if_neg howed] at hc ⊢
        exact ⟨c, later, tail, rfl, hc, hbytes⟩
  · rintro ⟨hleast, hgreatest, h⟩
    split at h
    · rename_i howed
      obtain ⟨later, rfl, h⟩ := h
      refine ⟨_, later, [b], rfl, ⟨hleast, hgreatest, ?_⟩, congrArg (b :: ·) h⟩
      rw [if_pos howed]
      exact ⟨rfl, rfl⟩
    · rename_i howed
      obtain ⟨c, later, tail, rfl, hc, h⟩ := h
      refine ⟨c, later, b :: tail, rfl, ⟨hleast, hgreatest, ?_⟩, congrArg (b :: ·) h⟩
      rw [if_neg howed]
      exact hc

end

/-- What is decoded is what has been encoded. -/
theorem decodeFrom_eq_ok_iff {bytes : List UInt8} {cs : List Char} (index : Nat)
    (read : List Char) (pending : Option Pending) :
    decodeFrom index read pending bytes = .ok cs ↔
      ∃ later, cs = read.reverse ++ later ∧ Spells pending later bytes := by
  have reading (read : List Char) (c : Char) (P : List Char → Prop) :
      (∃ later, cs = (c :: read).reverse ++ later ∧ P later) ↔
        ∃ more, cs = read.reverse ++ more ∧ ∃ later, more = c :: later ∧ P later := by
    simp
  induction bytes generalizing index read pending with
  | nil =>
    cases pending with
    | none => simp [decodeFrom, spells_nil, eq_comm]
    | some p => simp [decodeFrom, spells_nil]
  | cons b bytes ih =>
    cases pending with
    | none =>
      by_cases hb : b.toNat < 0x80
      · rw [decodeFrom, if_pos hb]
        simp only [spells_one hb]
        exact (ih _ _ _).trans (reading _ _ _)
      · rw [decodeFrom, if_neg hb]
        simp only [spells_lead (Nat.le_of_not_lt hb)]
        cases Pending.ofLead? b.toNat with
        | none => simp
        | some p => simp [ih]
    | some p =>
      rw [decodeFrom]
      simp only [spells_owed]
      by_cases hbounds : b.toNat < p.least ∨ p.greatest < b.toNat
      · rw [if_pos hbounds]
        refine iff_of_false nofun ?_
        rintro ⟨later, -, hleast, hgreatest, -⟩
        omega
      · rw [if_neg hbounds]
        obtain ⟨hleast, hgreatest⟩ := not_or.mp hbounds
        simp only [Nat.le_of_not_lt hleast, Nat.le_of_not_lt hgreatest, true_and]
        by_cases howed : p.owed ≤ 1
        · simp only [if_pos howed]
          exact (ih _ _ _).trans (reading _ _ _)
        · simp only [if_neg howed]
          exact ih _ _ _

/-- The bytes that are a text are its encoding. -/
theorem decode_eq_ok_iff {bytes : List UInt8} {text : String} :
    decode bytes = .ok text ↔ bytes.toByteArray = text.toByteArray := by
  have hbytes : bytes.toByteArray = text.toByteArray ↔
      text.toList.flatMap String.utf8EncodeChar = bytes := by
    rw [← String.utf8Encode_toList]
    constructor
    · intro h
      have h := congrArg (·.data.toList) h
      simpa [List.utf8Encode] using h.symm
    · intro h
      rw [← h]
      rfl
  have htext {cs : List Char} : String.ofList cs = text ↔ cs = text.toList := by
    constructor
    · rintro rfl
      exact String.toList_ofList.symm
    · rintro rfl
      exact String.ofList_toList
  rw [hbytes]
  unfold decode
  constructor
  · intro h
    cases hcs : decodeFrom 0 [] none bytes with
    | error fault =>
      rw [hcs] at h
      cases h
    | ok cs =>
      rw [hcs] at h
      obtain ⟨later, hlater, hbytes⟩ := (decodeFrom_eq_ok_iff 0 [] none).mp hcs
      have hcs : cs = text.toList := htext.mp (Except.ok.inj h)
      rw [← hcs, hlater]
      exact hbytes
  · intro h
    rw [(decodeFrom_eq_ok_iff 0 [] none).mpr ⟨text.toList, rfl, h⟩]
    exact congrArg Except.ok (htext.mpr rfl)

end LoxLang.Utf8
