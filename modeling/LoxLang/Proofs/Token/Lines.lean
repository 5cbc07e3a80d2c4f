import LoxLang.Proofs.Token.Producing

/-!
Lines. Wherever a scanner is, it has counted the lines that end in front of it, whatever it went
over: blanks, comments, strings and faults. So each token is on the line where it ends, and a fault
on the line that the text says.
-/

namespace LoxLang

/-- Blanks and comments that are in front of a rest of a text. -/
inductive Blanks : List Char → List Char → Prop
  | nil {text} : Blanks text text
  | cons {text rest t} (h : Tile text t) (hb : t.role = .blank) (hs : Blanks t.rest rest) :
      Blanks text rest

namespace Produced

/-- What a scanner gives for a part `taken` of its text, with its line. The line is counted to the
end of a token, but only to the beginning of a character that begins none and of a comment. -/
inductive Placed (gone taken rest : List Char) : Produced → Prop
  | token {kind} (h : Tile (taken ++ rest) ⟨taken, rest, .token kind⟩) :
      Placed gone taken rest
        (.item (.token ⟨kind, String.ofList taken, 1 + lineBreaks (gone ++ taken)⟩))
  | unexpectedCharacter {c} (htaken : taken = [c])
      (h : Tile (taken ++ rest) ⟨taken, rest, .fault (.unexpectedCharacter c)⟩) :
      Placed gone taken rest (.item (.fault (1 + lineBreaks gone) (.unexpectedCharacter c)))
  | unterminatedString (hrest : rest = [])
      (h : Tile (taken ++ rest) ⟨taken, rest, .fault .unterminatedString⟩) :
      Placed gone taken rest
        (.item (.fault (1 + lineBreaks (gone ++ taken ++ rest)) .unterminatedString))
  | unterminatedComment (hrest : rest = [])
      (h : Tile (taken ++ rest) ⟨taken, rest, .fault .unterminatedComment⟩) :
      Placed gone taken rest (.item (.fault (1 + lineBreaks gone) .unterminatedComment))
  | endOfText (htaken : taken = []) (hrest : rest = []) :
      Placed gone taken rest (.endOfText (1 + lineBreaks (gone ++ taken ++ rest)))

/-- The line of a token or of the end of the text. -/
def tokenLine? : Produced → Option Nat
  | .item (.token t) => some t.line
  | .item (.fault ..) => none
  | .endOfText line => some line

variable {gone taken rest : List Char} {p : Produced} {line : Nat}

/-- A token is on the line to which the scanner comes with it. -/
theorem Placed.tokenLine?_eq (h : p.Placed gone taken rest) (hl : p.tokenLine? = some line) :
    line = 1 + lineBreaks (gone ++ taken) := by
  cases h with
  | token => exact (Option.some.inj hl).symm
  | endOfText _ hrest =>
    subst hrest
    rw [List.append_nil] at hl
    exact (Option.some.inj hl).symm
  | _ => cases hl

end Produced

/-- What a stretch comes to is on the line that the text says. -/
theorem Tile.placed {gone text : List Char} {t : Stretch} {item : Item} (h : Tile text t)
    (hitem : t.item? (1 + lineBreaks gone) (1 + lineBreaks gone + lineBreaks t.consumed) =
      some item) :
    (Produced.item item).Placed gone t.consumed t.rest := by
  rw [Nat.add_assoc, ← lineBreaks_append] at hitem
  cases h with
  | space | lineComment | blockComment => cases hitem
  | unclosedComment ho h =>
    cases hitem
    refine .unterminatedComment rfl ?_
    rw [List.append_nil]
    exact .unclosedComment ho h
  | token hb h hlongest =>
    cases hitem
    exact .token (.token hb h hlongest)
  | @unclosedString cs h =>
    have htile : Tile ('\"' :: cs ++ []) ⟨'\"' :: cs, [], .fault .unterminatedString⟩ := by
      rw [List.append_nil]
      exact .unclosedString h
    have hplaced : (Produced.item (.fault (1 + lineBreaks (gone ++ ('\"' :: cs) ++ []))
        .unterminatedString)).Placed gone ('\"' :: cs) [] := .unterminatedString rfl htile
    rw [List.append_nil] at hplaced
    cases hitem
    exact hplaced
  | @unexpected c rest hb hq h =>
    have hc : c ≠ '\n' := by
      rintro rfl
      exact hb (.inl ⟨_, rfl, rfl⟩)
    rw [lineBreaks_append, lineBreaks_of_ne hc, Nat.add_zero] at hitem
    cases hitem
    exact .unexpectedCharacter rfl (.unexpected hb hq h)

namespace Scanner

/-- Whether a scanner between two parts of its text has counted the lines of the first part. -/
structure Level (s : Scanner) (before after : List Char) : Prop where
  text : s.source.toList = before ++ after
  pos : s.pos = (utf8 before).length
  line : s.line = 1 + lineBreaks before
  finished : s.done = true → after = []

variable {s : Scanner} {before after : List Char}

theorem Level.stands (h : s.Level before after) (hs : s.done = false) :
    s.Stands (1 + lineBreaks before) before after :=
  ⟨h.text, h.pos, h.line, hs⟩

theorem Stands.level (h : s.Stands (1 + lineBreaks before) before after) : s.Level before after :=
  ⟨h.text, h.pos, h.line, fun hs => by cases h.going.symm.trans hs⟩

/-- What comes of asking a scanner once: it goes over blanks and takes a part of the text. -/
structure Answers (s : Scanner) (before after : List Char) (p : Produced) (s' : Scanner)
    (blank taken rest : List Char) : Prop where
  next : s.next = some (some p, s')
  source : s'.source = s.source
  text : after = blank ++ (taken ++ rest)
  blanks : Blanks after (taken ++ rest)
  placed : p.Placed (before ++ blank) taken rest
  level : s'.Level (before ++ blank ++ taken) rest

/-- Blanks that come first are gone over before what is given. -/
theorem Answers.skip {s₁ s' : Scanner} {p : Produced} {t : Stretch} {blank taken rest : List Char}
    (h : s₁.Answers (before ++ t.consumed) t.rest p s' blank taken rest)
    (hnext : s.next = s₁.next) (hsource : s₁.source = s.source)
    (ht : t.consumed ++ t.rest = after) (htile : Tile after t) (hb : t.role = .blank) :
    s.Answers before after p s' (t.consumed ++ blank) taken rest where
  next := hnext.trans h.next
  source := h.source.trans hsource
  text := by rw [List.append_assoc, ← h.text, ht]
  blanks := .cons htile hb h.blanks
  placed := List.append_assoc before .. ▸ h.placed
  level := List.append_assoc before .. ▸ h.level

/-- A scanner that is not done gives something, on the line that the text says. -/
theorem Stands.answers (before : List Char) : (after : List Char) → (s : Scanner) →
    s.Stands (1 + lineBreaks before) before after →
    ∃ p s' blank taken rest, s.Answers before after p s' blank taken rest
  | [], s, h => by
    have hblank : ¬ OpensBlank [] := by simp [OpensBlank]
    have hend : ({ s with start := s.pos } : Scanner).atEnd := h.atEnd.mpr rfl
    have hnext : s.next = some (some (.endOfText (1 + lineBreaks before)),
        { s with start := s.pos, done := true }) := by
      rw [Scanner.next, h.going, if_neg Bool.false_ne_true, h.skipTrivia_of_not_opensBlank hblank]
      dsimp only
      rw [if_pos hend, h.line]
    refine ⟨_, _, [], [], [], hnext, rfl, rfl, .nil, ?_, ?_⟩
    · have hplaced : (Produced.endOfText (1 + lineBreaks (before ++ [] ++ []))).Placed before []
          [] := .endOfText rfl rfl
      simpa using hplaced
    · exact ⟨by simpa using h.text, by simpa using h.pos, by simpa using h.line, fun _ => rfl⟩
  | c :: cs, s, h => by
    have htile := Tile.first c cs
    have htext := Stretch.first_text c cs
    have hafter : (s.past (Stretch.first c cs).consumed).Stands
        (1 + lineBreaks (before ++ (Stretch.first c cs).consumed))
        (before ++ (Stretch.first c cs).consumed) (Stretch.first c cs).rest := by
      rw [lineBreaks_append, ← Nat.add_assoc]
      exact past (by rwa [htext])
    by_cases hb : OpensBlank (c :: cs)
    · rcases h.skipTrivia_of_opensBlank hb with ⟨hrole, hskip⟩ | ⟨hrole, hskip⟩
      · have hnext : s.next = (s.past (Stretch.first c cs).consumed).next := by
          rw [Scanner.next, Scanner.next, hskip, h.going, hafter.going]
          rfl
        obtain ⟨p, s', blank, taken, rest, hanswers⟩ := answers _ _ _ hafter
        exact ⟨_, _, _, _, _, hanswers.skip hnext rfl htext htile hrole⟩
      · have hnext : s.next = some (some (.item (.fault (1 + lineBreaks before)
            .unterminatedComment)), s.past (Stretch.first c cs).consumed) := by
          rw [Scanner.next, h.going, if_neg Bool.false_ne_true, hskip]
        refine ⟨_, _, [], _, _, hnext, rfl, htext.symm, ?_, ?_, ?_⟩
        · rw [htext]
          exact .nil
        · rw [List.append_nil]
          exact htile.placed (by rw [Stretch.item?, hrole])
        · rw [List.append_nil]
          exact hafter.level
    · obtain ⟨item, hitem, hnext⟩ := h.next_item hb
      refine ⟨_, _, [], _, _, hnext, rfl, htext.symm, ?_, ?_, ?_⟩
      · rw [htext]
        exact .nil
      · rw [List.append_nil]
        exact htile.placed hitem
      · rw [List.append_nil]
        exact ⟨hafter.text, hafter.pos, hafter.line, hafter.level.finished⟩
termination_by after => after.length
decreasing_by exact Nat.lt_succ_of_le (Stretch.length_rest_first_le c cs)

/-- Where a scanner of a text can be when it has given `given`. -/
inductive Reached (source : String) : List Produced → Scanner → Prop
  | new : Reached source [] (.new source)
  | next {given p s s'} (h : Reached source given s) (hs : s.next = some (some p, s')) :
      Reached source (given ++ [p]) s'

variable {source : String} {given : List Produced}

/-- A scanner that is done gives nothing, so what one has given has come of where it stood. -/
theorem Level.answers {p : Produced} {s' : Scanner} (h : s.Level before after)
    (hs : s.next = some (some p, s')) :
    ∃ blank taken rest, s.Answers before after p s' blank taken rest := by
  have hgoing : s.done = false := by
    cases hdone : s.done with
    | false => rfl
    | true =>
      rw [Scanner.next, if_pos hdone] at hs
      cases hs
  obtain ⟨p', s'', blank, taken, rest, hanswers⟩ := (h.stands hgoing).answers
  obtain ⟨⟨rfl⟩, rfl⟩ := Prod.mk.inj (Option.some.inj (hs.symm.trans hanswers.next))
  exact ⟨blank, taken, rest, hanswers⟩

theorem Reached.level (h : Reached source given s) : s.source = source ∧
    ∃ before after, s.Level before after := by
  induction h with
  | new => exact ⟨rfl, [], source.toList, rfl, rfl, rfl, nofun⟩
  | next _ hs ih =>
    obtain ⟨hsource, before, after, hlevel⟩ := ih
    obtain ⟨blank, taken, rest, hanswers⟩ := hlevel.answers hs
    exact ⟨hanswers.source.trans hsource, _, _, hanswers.level⟩

/-- The lines of tokens do not descend, and none is behind the line that the scanner is on. -/
theorem Reached.tokenLines (h : Reached source given s) :
    (given.filterMap Produced.tokenLine?).Pairwise (· ≤ ·) ∧
      ∀ line ∈ given.filterMap Produced.tokenLine?, line ≤ s.line := by
  induction h with
  | new => exact ⟨.nil, nofun⟩
  | @next given p s s' h hs ih =>
    obtain ⟨hsorted, hle⟩ := ih
    obtain ⟨-, before, after, hlevel⟩ := h.level
    obtain ⟨blank, taken, rest, hanswers⟩ := hlevel.answers hs
    have hline : s.line ≤ s'.line := by
      rw [hlevel.line, hanswers.level.line, lineBreaks_append, lineBreaks_append]
      omega
    have hlast : ∀ line, p.tokenLine? = some line → line = s'.line := by
      intro line hl
      rw [hanswers.level.line, hanswers.placed.tokenLine?_eq hl]
    rw [List.filterMap_append]
    refine ⟨List.pairwise_append.mpr ⟨hsorted, ?_, ?_⟩, ?_⟩
    · rw [List.filterMap_cons]
      split <;> simp
    · intro line hmem last hlastmem
      obtain ⟨q, hq, hql⟩ := List.mem_filterMap.mp hlastmem
      obtain rfl := List.mem_singleton.mp hq
      rw [hlast _ hql]
      exact Nat.le_trans (hle line hmem) hline
    · intro line hmem
      rcases List.mem_append.mp hmem with hmem | hmem
      · exact Nat.le_trans (hle line hmem) hline
      · obtain ⟨q, hq, hql⟩ := List.mem_filterMap.mp hmem
        obtain rfl := List.mem_singleton.mp hq
        exact Nat.le_of_eq (hlast _ hql)

/-- What has been given is the beginning of what the scan of the text comes to. -/
theorem Reached.gives (h : Reached source given s) :
    ∃ more, s.Gives more ∧ given ++ more = (scan source).produced := by
  induction h with
  | new =>
    have hstands : (Scanner.new source).Stands 1 [] source.toList := ⟨rfl, rfl, rfl, rfl⟩
    exact ⟨_, .going hstands, rfl⟩
  | @next given p s s' _ hs ih =>
    obtain ⟨more, hgives, hmore⟩ := ih
    obtain ⟨s'', hnext, htail⟩ := hgives.next
    obtain ⟨hhead, rfl⟩ := Prod.mk.inj (Option.some.inj (hs.symm.trans hnext))
    obtain ⟨tail, rfl⟩ := List.head?_eq_some_iff.mp hhead.symm
    exact ⟨tail, htail, by rw [← hmore, List.append_assoc, List.singleton_append]⟩

/-- A scanner that is asked again and again gives the rest of what it is to give. -/
theorem Gives.reached {more : List Produced} (h : s.Gives more) (hs : Reached source given s) :
    ∃ s', Reached source (given ++ more) s' ∧ s'.done = true := by
  induction more generalizing s given with
  | nil =>
    refine ⟨s, by rwa [List.append_nil], ?_⟩
    generalize hmore : ([] : List Produced) = more at h
    cases h with
    | going h =>
      have hlen := congrArg List.length hmore
      simp [Scan.produced] at hlen
    | done h => exact h
  | cons p more ih =>
    obtain ⟨s', hnext, htail⟩ := h.next
    obtain ⟨s'', hreached, hdone⟩ := ih htail (hs.next hnext)
    exact ⟨s'', by simpa using hreached, hdone⟩

/-- All that has been given comes of parts of the text, and is on the lines that they say. -/
theorem Reached.placed (h : Reached source given s) : ∀ p ∈ given, ∃ gone taken rest,
    source.toList = gone ++ taken ++ rest ∧ p.Placed gone taken rest := by
  induction h with
  | new => nofun
  | @next given p s s' h hs ih =>
    obtain ⟨rfl, before, after, hlevel⟩ := h.level
    obtain ⟨blank, taken, rest, hanswers⟩ := hlevel.answers hs
    intro q hq
    rcases List.mem_append.mp hq with hq | hq
    · exact ih q hq
    · obtain rfl := List.mem_singleton.mp hq
      refine ⟨before ++ blank, taken, rest, ?_, hanswers.placed⟩
      rw [hlevel.text, hanswers.text, List.append_assoc, List.append_assoc]

/-- Whether the lines that a scanner of a text counts are those of the text. -/
structure CountsLines (source : String) (given : List Produced) (s : Scanner) : Prop where
  /-- All lines that end in front of it are counted, and so what it gives next is on its line. -/
  level : ∃ before after, source.toList = before ++ after ∧ s.Level before after ∧
    (s.done = false → ∃ p s', s.next = some (some p, s')) ∧
    ∀ p s', s.next = some (some p, s') →
      ∃ blank taken rest, s.Answers before after p s' blank taken rest
  /-- All that it gave is on its line. -/
  placed : ∀ p ∈ given, ∃ gone taken rest,
    source.toList = gone ++ taken ++ rest ∧ p.Placed gone taken rest
  /-- The lines of tokens and of the end of the text do not descend. -/
  sorted : (given.filterMap Produced.tokenLine?).Pairwise (· ≤ ·)
  /-- It comes to the end of the text, and what it then has given is the scan of the text. -/
  ends : ∃ more s', Reached source (given ++ more) s' ∧ s'.done = true ∧
    given ++ more = (scan source).produced

/-- Lines do not drift, wherever a scanner is. -/
theorem Reached.countsLines (h : Reached source given s) : CountsLines source given s where
  level := by
    obtain ⟨rfl, before, after, hlevel⟩ := h.level
    refine ⟨before, after, hlevel.text, hlevel, fun hgoing => ?_, fun p s' => hlevel.answers⟩
    obtain ⟨p, s', _, _, _, hanswers⟩ := (hlevel.stands hgoing).answers
    exact ⟨p, s', hanswers.next⟩
  placed := h.placed
  sorted := h.tokenLines.1
  ends := by
    obtain ⟨more, hgives, hmore⟩ := h.gives
    obtain ⟨s', hreached, hdone⟩ := hgives.reached h
    exact ⟨more, s', hreached, hdone, hmore⟩

/-- Behind a string over two lines, with a character that begins no token and a comment to come. -/
theorem countsLines_string : ∃ s,
    Reached "\"a\nb\" @/*" [.item (.token ⟨.string "a\nb", "\"a\nb\"", 2⟩)] s ∧
    CountsLines "\"a\nb\" @/*" [.item (.token ⟨.string "a\nb", "\"a\nb\"", 2⟩)] s := by
  have hnext : (new "\"a\nb\" @/*").next = some
      (some (.item (.token ⟨.string "a\nb", "\"a\nb\"", 2⟩)),
        ⟨"\"a\nb\" @/*", 0, 5, 2, false⟩) := by decide +kernel
  have hreached := Reached.new.next hnext
  exact ⟨_, hreached, hreached.countsLines⟩

end Scanner

end LoxLang
