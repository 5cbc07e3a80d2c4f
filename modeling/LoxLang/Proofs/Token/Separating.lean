import LoxLang.Proofs.Token.Producing
import Mathlib.Data.List.Basic

/-!
Texts behind blanks. No token but a string goes over a blank, so what comes first in a text is told
from the part in front of the next blank. A text on a new line is therefore scanned as by itself,
whatever is in front of it, if nothing there is left open.
-/

namespace LoxLang

/-- A text without blanks. -/
def Solid (cs : List Char) : Prop :=
  ∀ c ∈ cs, ¬ isSpace c

/-- Whether a text begins with no more without a blank than another one does. -/
def Within (cs ds : List Char) : Prop :=
  ∀ p, Solid p → p <+: cs → p <+: ds

namespace Within

variable {c : Char} {cs ds p : List Char}

theorem of_space (hc : isSpace c) (cs ds : List Char) : Within (c :: cs) ds := by
  intro p hp hpre
  cases p with
  | nil => exact List.nil_prefix
  | cons d p =>
    obtain ⟨rfl, -⟩ := List.cons_prefix_cons.mp hpre
    exact (hp d List.mem_cons_self hc).elim

theorem nil (ds : List Char) : Within [] ds := by
  intro p _ hpre
  rw [List.prefix_nil.mp hpre]
  exact List.nil_prefix

theorem cons (h : Within cs ds) (c : Char) : Within (c :: cs) (c :: ds) := by
  intro p hp hpre
  cases p with
  | nil => exact List.nil_prefix
  | cons d p =>
    obtain ⟨rfl, htail⟩ := List.cons_prefix_cons.mp hpre
    have hsolid : Solid p := fun e he => hp e (List.mem_cons_of_mem _ he)
    exact List.cons_prefix_cons.mpr ⟨rfl, h p hsolid htail⟩

theorem append (h : Within cs ds) (front : List Char) : Within (front ++ cs) (front ++ ds) := by
  induction front with
  | nil => exact h
  | cons c front ih => exact ih.cons c

/-- A blank or a comment that comes first comes first in the other text too. -/
theorem opensBlank (h : Within cs ds) {front : List Char} (hne : front ≠ [])
    (hb : OpensBlank (front ++ cs)) : OpensBlank (front ++ ds) := by
  have hpair : ∀ second, second = '/' ∨ second = '*' → ['/', second] <+: front ++ cs →
      ['/', second] <+: front ++ ds := by
    intro second hsecond
    apply h.append front
    rcases hsecond with rfl | rfl <;> simp [Solid, isSpace]
  rcases hb with hspace | hline | hblock
  · obtain ⟨c, front, rfl⟩ := List.exists_cons_of_ne_nil hne
    exact .inl hspace
  · exact .inr (.inl (hpair '/' (.inl rfl) hline))
  · exact .inr (.inr (hpair '*' (.inr rfl) hblock))

end Within

/-- Only a string goes over a blank. -/
theorem Lexeme.solid {c : Char} {cs : List Char} {kind : Kind} (h : Lexeme (c :: cs) kind)
    (hc : c ≠ '\"') : Solid (c :: cs) := by
  have hdigit : ∀ d : Char, d.isDigit → ¬ isSpace d := by
    intro d hd hs
    have hascii : d = ' ' ∨ d = '\r' ∨ d = '\t' ∨ d = '\n' := by simpa [isSpace, or_assoc] using hs
    rcases hascii with rfl | rfl | rfl | rfl <;> cases hd
  have hpart : ∀ d : Char, isWordPart d → ¬ isSpace d := by
    intro d hd hs
    have hascii : d = ' ' ∨ d = '\r' ∨ d = '\t' ∨ d = '\n' := by simpa [isSpace, or_assoc] using hs
    rcases hascii with rfl | rfl | rfl | rfl <;> cases hd
  rcases h.sorts with ⟨s, -, hs, -, -⟩ | ⟨-, x, hx, -⟩ | ⟨hw, hparts, -⟩ | ⟨hq, -⟩
  · rw [← hs]
    cases s <;> simp [Solid, Symbol.text, isSpace]
  · intro d hd
    generalize c :: cs = text at hx hd
    cases hx with
    | whole _ h => exact hdigit d (h d hd)
    | decimal _ _ hwhole hfraction =>
      rcases List.mem_append.mp hd with hd | hd
      · exact hdigit d (hwhole d hd)
      · rcases List.mem_cons.mp hd with rfl | hd
        · decide
        · exact hdigit d (hfraction d hd)
  · intro d hd
    rcases List.mem_cons.mp hd with rfl | hd
    · exact hpart d (isWordPart_of_isWordStart hw)
    · exact hpart d (hparts d hd)
  · exact (hc hq).elim

/-- A string ends with its first quote. -/
theorem Lexeme.length_le_of_quote {cs ds : List Char} {kind kind' : Kind}
    (h : Lexeme ('\"' :: cs) kind) (h' : Lexeme ('\"' :: ds) kind')
    (hpre : '\"' :: cs <+: '\"' :: ds) : ds.length ≤ cs.length := by
  obtain ⟨contents, rfl, hcontents, -⟩ := h.of_quote
  obtain ⟨contents', rfl, hcontents', -⟩ := h'.of_quote
  obtain ⟨-, rest, hrest⟩ := List.cons_prefix_cons.mp hpre
  have htake := takeWhile_ne hcontents rest
  rw [← List.singleton_append, ← List.append_assoc, hrest, takeWhile_ne hcontents'] at htake
  rw [htake]

/-- Whether a piece of text ends before the text does. -/
def Role.IsClosed (r : Role) : Prop :=
  r ≠ .fault .unterminatedString ∧ r ≠ .fault .unterminatedComment

namespace Tile

variable {text rest front behind : List Char} {t : Stretch} {kind : Kind}

theorem consumed_append_rest (h : Tile text t) : t.consumed ++ t.rest = text := by
  obtain ⟨c, cs, rfl⟩ := List.exists_cons_of_ne_nil h.ne_nil
  rw [h.eq_first, Stretch.first_text]

/-- The longest token is the longest in front of a text that goes no further without a blank. -/
theorem longest_of_within (h : Lexeme front kind) (hw : Within rest behind)
    (hlongest : ∀ p k, p <+: front ++ behind → Lexeme p k → p.length ≤ front.length) :
    ∀ p k, p <+: front ++ rest → Lexeme p k → p.length ≤ front.length := by
  intro p k hpre hp
  obtain ⟨c, front, rfl⟩ := List.exists_cons_of_ne_nil h.ne_nil
  obtain ⟨q, rfl, -⟩ := hp.exists_of_prefix hpre
  by_cases hc : c = '\"'
  · subst hc
    rcases List.prefix_or_prefix_of_prefix hpre (List.prefix_append _ _) with hle | hle
    · exact hle.length_le
    · have hlength := h.length_le_of_quote hp hle
      simp only [List.length_cons]
      omega
  · exact hlongest _ k (hw.append _ _ (hp.solid hc) hpre) hp

/-- A closed tile is the same in front of a text that goes no further without a blank. Behind a
comment that text ends the line too. -/
theorem of_within (h : Tile text t) (hclosed : t.role.IsClosed) (hw : Within rest t.rest)
    (hline : t.role = .blank → t.rest = [] ∨ t.rest.head? = some '\n' →
      rest = [] ∨ rest.head? = some '\n') :
    Tile (t.consumed ++ rest) { t with rest := rest } := by
  cases h with
  | space h => exact .space h
  | lineComment hb hr => exact .lineComment hb (hline rfl hr)
  | @blockComment comment rest' h hshortest =>
    refine .blockComment h fun p hpre hp => ?_
    by_contra hlt
    have hfront := List.prefix_of_prefix_length_le hpre (List.prefix_append comment rest)
      (Nat.le_of_not_le hlt)
    exact hlt (hshortest p (hfront.trans (List.prefix_append _ _)) hp)
  | unclosedComment => exact (hclosed.2 rfl).elim
  | token hb hk hlongest =>
    exact .token (fun hb' => hb (hw.opensBlank hk.ne_nil hb')) hk
      (longest_of_within hk hw hlongest)
  | unclosedString => exact (hclosed.1 rfl).elim
  | @unexpected c rest' hb hq h =>
    refine .unexpected (fun hb' => hb (hw.opensBlank (List.cons_ne_nil c []) hb')) hq ?_
    intro p k hpre hp
    obtain ⟨q, rfl, -⟩ := hp.exists_of_prefix hpre
    exact h _ k (hw.cons c _ (hp.solid hq) hpre) hp

end Tile

theorem tileItems_append (line : Nat) (ts us : List Stretch) : tileItems line (ts ++ us) =
    tileItems line ts ++ tileItems (line + lineBreaks (ts.flatMap (·.consumed))) us := by
  induction ts generalizing line with
  | nil => rfl
  | cons t ts ih =>
    rw [List.flatMap_cons, lineBreaks_append, ← Nat.add_assoc]
    simp only [List.cons_append, tileItems, ih, List.append_assoc]

/-- A fault of a text is a fault of its scan. -/
theorem exists_fault_of_mem {ts : List Stretch} {t : Stretch} {error : LexicalError} (h : t ∈ ts)
    (hr : t.role = .fault error) (line : Nat) : ∃ n, .fault n error ∈ tileItems line ts := by
  induction ts generalizing line with
  | nil => cases h
  | cons u ts ih =>
    rcases List.mem_cons.mp h with rfl | h
    · simp only [tileItems, List.mem_append, Option.mem_toList, Stretch.item?, hr]
      cases error with
      | unterminatedComment => exact ⟨_, .inl rfl⟩
      | _ => exact ⟨_, .inl rfl⟩
    · obtain ⟨n, hn⟩ := ih h (line + lineBreaks u.consumed)
      exact ⟨n, List.mem_append_right _ hn⟩

/-- Whether no string and no comment is left open at the end of a text. -/
def Scan.IsClosed (s : Scan) : Prop :=
  ∀ line, .fault line .unterminatedString ∉ s.items ∧ .fault line .unterminatedComment ∉ s.items

theorem Scan.IsClosed.of_errors {s : Scan} (h : s.errors = []) : s.IsClosed := by
  have hnone : ∀ line error, .fault line error ∉ s.items := by
    intro line error hmem
    have herror : Diagnostic.lexical line error ∈ s.errors :=
      List.mem_filterMap.mpr ⟨_, hmem, rfl⟩
    rw [h] at herror
    cases herror
  exact fun line => ⟨hnone line _, hnone line _⟩

/-- The same stretch of a text that goes on behind the end of the line. -/
def Stretch.followed (t : Stretch) (ds : List Char) : Stretch :=
  { t with rest := t.rest ++ '\n' :: ds }

theorem tileItems_followed (line : Nat) (ts : List Stretch) (ds : List Char) :
    tileItems line (ts.map (·.followed ds)) = tileItems line ts := by
  induction ts generalizing line with
  | nil => rfl
  | cons t ts ih =>
    simp only [List.map_cons, tileItems, ih]
    rfl

namespace Tiling

variable {cs ds : List Char} {ts us : List Stretch}

/-- The tiles of a text whose strings and comments are closed stay when a line is put behind it,
and the tiles of that line are those that it has by itself. -/
theorem append_line (h : Tiling cs ts) (hclosed : ∀ t ∈ ts, t.role.IsClosed) (h' : Tiling ds us) :
    Tiling (cs ++ '\n' :: ds)
      (ts.map (·.followed ds) ++ ⟨['\n'], ds, .blank⟩ :: us) := by
  induction h with
  | nil => exact .cons (.space rfl) h'
  | @cons text t ts ht _ ih =>
    rw [List.forall_mem_cons] at hclosed
    have hwithin : Within (t.rest ++ '\n' :: ds) (t.rest ++ []) :=
      (Within.of_space rfl ds []).append t.rest
    rw [List.append_nil] at hwithin
    have htile := ht.of_within hclosed.1 hwithin fun _ hline => by
      rcases hline with hnil | hline
      · exact .inr (by rw [hnil]; rfl)
      · obtain ⟨rest, hrest⟩ := List.head?_eq_some_iff.mp hline
        exact .inr (by rw [hrest]; rfl)
    rw [← List.append_assoc, ht.consumed_append_rest] at htile
    exact .cons htile (ih hclosed.2)

/-- Behind a text whose strings and comments are closed the next line is scanned by itself. -/
theorem scanned_line (h : Tiling cs ts) (hclosed : ∀ t ∈ ts, t.role.IsClosed) (h' : Tiling ds us)
    (line : Nat) : scanFrom [] line (cs ++ '\n' :: ds) =
      (scanFrom [] line cs).join (scanFrom [] (line + (lineBreaks cs + 1)) ds) := by
  have hlines : lineBreaks (cs ++ '\n' :: ds) = lineBreaks cs + 1 + lineBreaks ds := by
    rw [lineBreaks_append, Nat.add_assoc, Nat.add_comm 1]
    simp [lineBreaks]
  have htext : (ts.map (·.followed ds)).flatMap (·.consumed) = cs := by
    rw [← h.text, List.flatMap_map]
    rfl
  rw [(h.append_line hclosed h').scanned, h.scanned, h'.scanned, tileItems_append,
    tileItems_followed, htext, hlines]
  simp only [Scan.join, tileItems, Stretch.item?, Option.toList_none, List.nil_append]
  have hone : lineBreaks ['\n'] = 1 := rfl
  rw [hone, ← Nat.add_assoc, ← Nat.add_assoc, Nat.add_assoc line]

end Tiling

/-- A text on a new line behind another one is scanned as by itself. -/
theorem scan_append_line {first : String} (h : (scan first).IsClosed) (second : String) :
    scan (first ++ "\n" ++ second) =
      (scan first).join ((scan second).moved (lineBreaks first.toList + 1)) := by
  obtain ⟨ts, hts⟩ := Tiling.existsUnique first.toList
  obtain ⟨us, hus⟩ := Tiling.existsUnique second.toList
  have htiling := (hts ts).mpr rfl
  have hclosed : ∀ t ∈ ts, t.role.IsClosed := by
    have hitems : (scan first).items = tileItems 1 ts := congrArg Scan.items (htiling.scanned 1)
    intro t ht
    constructor
    · intro hr
      obtain ⟨n, hn⟩ := exists_fault_of_mem ht hr 1
      exact (h n).1 (hitems ▸ hn)
    · intro hr
      obtain ⟨n, hn⟩ := exists_fault_of_mem ht hr 1
      exact (h n).2 (hitems ▸ hn)
  have htext : (first ++ "\n" ++ second).toList = first.toList ++ '\n' :: second.toList := by
    simp
  unfold scan
  rw [htext, htiling.scanned_line hclosed ((hus us).mpr rfl), scanFrom_moved]

/-- Whether this scan is what a scanner of a text gives: its items one by one, the end of the text,
and then nothing. -/
def Scanner.Scans (source : String) (s : Scan) : Prop :=
  ∀ count, Scanner.calls count (.new source) =
    some ((List.range count).map (s.produced[·]?))

theorem Scan.produced_inj {s s' : Scan} (h : s.produced = s'.produced) : s = s' := by
  obtain ⟨hitems, hend⟩ := List.append_inj' h rfl
  obtain ⟨items, line⟩ := s
  obtain ⟨items', line'⟩ := s'
  obtain rfl : items = items' :=
    List.map_injective_iff.mpr (fun _ _ => Produced.item.inj) hitems
  cases hend
  rfl

/-- A scanner gives the scan of its text and nothing else. -/
theorem Scanner.scans_iff {source : String} {s : Scan} : Scans source s ↔ s = scan source := by
  have hstands : (Scanner.new source).Stands 1 [] source.toList := ⟨rfl, rfl, rfl, rfl⟩
  have hcalls := (Gives.going hstands).calls
  constructor
  · intro h
    refine Scan.produced_inj (List.ext_getElem? fun i => ?_)
    have heq := (h (i + 1)).symm.trans (hcalls (i + 1))
    simp only [List.range_succ, List.map_append, List.map_singleton] at heq
    exact List.cons.inj (List.append_inj' (Option.some.inj heq) rfl).2 |>.1
  · rintro rfl
    exact hcalls

/-- A scanner of a text, with another text on a new line behind it, gives the items of the first
and then those of the second so many lines further on, if no string and no comment of the first is
left open. -/
theorem Scanner.scans_append_line {first second : String} {s s' : Scan} (h : Scans first s)
    (h' : Scans second s') (hclosed : s.IsClosed) :
    Scans (first ++ "\n" ++ second) (s.join (s'.moved (lineBreaks first.toList + 1))) := by
  rw [scans_iff] at h h' ⊢
  subst h h'
  exact (scan_append_line hclosed second).symm

/-- An operator at the end of the first text does not grow by the equals sign behind the line. -/
theorem Scanner.scans_append_line_operator :
    Scans "@ <" ⟨[.fault 1 (.unexpectedCharacter '@'), .token ⟨.symbol .less, "<", 1⟩], 1⟩ ∧
    Scans "= /" ⟨[.token ⟨.symbol .equal, "=", 1⟩, .token ⟨.symbol .slash, "/", 1⟩], 1⟩ ∧
    Scan.IsClosed ⟨[.fault 1 (.unexpectedCharacter '@'), .token ⟨.symbol .less, "<", 1⟩], 1⟩ ∧
    Scans "@ <\n= /" ⟨[.fault 1 (.unexpectedCharacter '@'), .token ⟨.symbol .less, "<", 1⟩,
      .token ⟨.symbol .equal, "=", 2⟩, .token ⟨.symbol .slash, "/", 2⟩], 2⟩ := by
  have hfirst : scan "@ <" =
      ⟨[.fault 1 (.unexpectedCharacter '@'), .token ⟨.symbol .less, "<", 1⟩], 1⟩ := by
    decide +kernel
  have hsecond : scan "= /" =
      ⟨[.token ⟨.symbol .equal, "=", 1⟩, .token ⟨.symbol .slash, "/", 1⟩], 1⟩ := by
    decide +kernel
  have h := scans_iff.mpr hfirst.symm
  have h' := scans_iff.mpr hsecond.symm
  have hclosed : Scan.IsClosed
      ⟨[.fault 1 (.unexpectedCharacter '@'), .token ⟨.symbol .less, "<", 1⟩], 1⟩ := by
    intro line
    simp
  exact ⟨h, h', hclosed, scans_append_line h h' hclosed⟩

end LoxLang
