import LoxLang.Program
import LoxLang.Proofs.Grammar.Soundness

/-!
Statements and declarations are derived as they are read. From the steps, every parser reads with
enough fuel.
-/

namespace LoxLang

namespace Reads

/-- The names of a parameter list that goes on behind `count` others. -/
theorem parameterList (fuel count : Nat) (c : Cursor) (hn : c.tokens.length + 1 ≤ fuel) :
    Reads (fun _ => 0) (fun ts c ns c' => c'.nextId = c.nextId ∧
      count + ns.length ≤ maxArity ∧ Derives .nameList ts ns) c
      (Parser.parameterList fuel count c) := by
  induction fuel generalizing count c with
  | zero => omega
  | succ fuel ih =>
    have step : ∀ c : Cursor, c.tokens.length ≤ fuel →
        Reads (fun _ => 0) (fun ts c ns c' => count < maxArity → c'.nextId = c.nextId ∧
          count + ns.length ≤ maxArity ∧ Derives .nameList ts ns) c
          ((do
            let name ← Parser.expectName .parameterName
            if ← Parser.accept (.symbol .comma) then
              return name :: (← Parser.parameterList fuel (count + 1))
            return [name] : Parser (List Name)) c) := by
      intro c hn
      refine (Reads.expectName rfl).bind fun name c₁ h₁ => ?_
      refine Reads.accept.bind fun b c₂ h₂ => ?_
      cases b with
      | false =>
        refine .pure rfl ?_
        rintro _ ⟨hj, rfl, -⟩ _ ⟨hi, t, rfl, ht, rfl⟩ hc
        exact ⟨hj.trans hi, hc, .lastName ht⟩
      | true =>
        refine (ih (count + 1) c₂ (by omega)).bind fun ns c₃ h₃ => .pure rfl ?_
        rintro ts₃ ⟨hk, hl, hns⟩ _ ⟨hj, k, rfl, hc, -⟩ _ ⟨hi, t, rfl, ht, rfl⟩ -
        refine ⟨hk.trans (hj.trans hi), ?_, by simpa using Derives.moreNames ht hc hns⟩
        simpa [Nat.add_assoc, Nat.add_comm 1] using hl
    unfold Parser.parameterList
    by_cases hm : maxArity ≤ count
    · simp only [hm, ↓reduceIte]
      apply Reads.reportHere
      refine Reads.weaken (step _ ?_) (by simp) fun _ _ _ _ => trivial
      exact Nat.le_of_succ_le_succ hn
    · simp only [hm, ↓reduceIte]
      exact (step c (by omega)).weaken (by simp) fun _ _ _ h => h (by omega)

theorem parameters (fuel : Nat) (c : Cursor) (hn : c.tokens.length + 1 ≤ fuel) :
    Reads (fun _ => 0) (fun ts c ns c' => c'.nextId = c.nextId ∧ Derives .parameters ts ns) c
      (Parser.parameters fuel c) := by
  unfold Parser.parameters
  refine Reads.nextIs.bind fun b c₁ h₁ => ?_
  cases b with
  | true =>
    refine .pure rfl ?_
    rintro _ ⟨rfl, rfl, -⟩
    exact ⟨rfl, .noParameters⟩
  | false =>
    refine (parameterList fuel 0 c₁ (by omega)).weaken (by simp) ?_
    rintro ts ns c₂ ⟨hi, hl, hns⟩ _ ⟨rfl, rfl, -⟩
    exact ⟨hi, .parameters (by simpa using hl) hns⟩

theorem superclassReference {c : Cursor} :
    Reads (fun _ => 0) (fun ts c r c' => (ts = [] ∧ r = none ∧ c'.nextId = c.nextId) ∨
      ∃ a s, ts = [a, s] ∧ a.kind = .symbol .less ∧ s.kind = .identifier ∧
        r = some ⟨c.nextId, s.toName⟩ ∧ c'.nextId = c.nextId + 1) c
      (Parser.superclassReference c) := by
  unfold Parser.superclassReference
  refine Reads.accept.bind fun b c₁ h₁ => ?_
  cases b with
  | false =>
    refine .pure rfl ?_
    rintro _ ⟨hi, rfl, -⟩
    exact .inl ⟨rfl, rfl, hi⟩
  | true =>
    refine (Reads.expectName rfl).bind fun name c₂ h₂ => ?_
    refine Reads.occurrence.bind fun o c₃ h₃ => .pure rfl ?_
    rintro _ ⟨rfl, rfl, hk⟩ _ ⟨hj, s, rfl, hs, rfl⟩ _ ⟨hi, a, rfl, ha, -⟩
    rw [hj, hi] at hk
    exact .inr ⟨a, s, rfl, ha, hs, by rw [hj, hi], hk⟩

end Reads

namespace Sound

variable {fuel : Nat} {c : Cursor}

theorem functionRest_succ (ih : Sound fuel) (name? : Option Name) (line : Nat)
    (sort : FunctionSort) (hn : 32 * c.tokens.length + 2 ≤ fuel + 1) :
    Reads (fun _ => 0) (fun ts c f c' => ∃ parameters body, f = ⟨name?, parameters, body, line⟩ ∧
      Phrase.Read .functionRest ts c (parameters, body) c') c
      (Parser.functionRest (fuel + 1) name? line sort c) := by
  unfold Parser.functionRest
  refine (Reads.parameters fuel c (by omega)).bind fun parameters c₁ h₁ => ?_
  refine Reads.expect.bind fun r c₂ h₂ => ?_
  refine Reads.expect.bind fun l c₃ h₃ => ?_
  refine (ih.block c₃ (by omega)).bind fun body c₄ h₄ => .pure rfl ?_
  rintro ts₄ hb _ ⟨hk, rfl, hl⟩ _ ⟨hj, rfl, hr⟩ ts₁ ⟨hi, hp⟩
  obtain ⟨hb, hn⟩ := hb l hl
  refine ⟨parameters, body, rfl, by simpa using Derives.functionRest hr hp hb, ?_⟩
  rw [← hi, ← hj, ← hk]
  exact hn

theorem block_succ (ih : Sound fuel) (hn : 32 * c.tokens.length + 26 ≤ fuel + 1) :
    Reads (fun _ => 0) (fun ts c body c' => ∀ l : Token, l.kind = .symbol .leftBrace →
      Phrase.Read .block (l :: ts) c body c') c (Parser.block (fuel + 1) c) := by
  unfold Parser.block
  refine (ih.declarations [] c (by omega)).bind fun body c₁ h₁ => ?_
  refine Reads.expect.bind fun r c₂ h₂ => .pure rfl ?_
  rintro _ ⟨hj, rfl, hr⟩ ts₁ ⟨more, rfl, hb, hi⟩ l hl
  exact ⟨by simpa using Derives.block hl hr hb, hj ▸ hi⟩

theorem declarations_succ (ih : Sound fuel) (read : List Stmt)
    (hn : 32 * c.tokens.length + 25 ≤ fuel + 1) :
    Reads (fun _ => 0) (fun ts c ss c' => ∃ more, ss = read.reverse ++ more ∧
      Phrase.Read .declarations ts c more c') c (Parser.declarations (fuel + 1) read c) := by
  have done : Reads (fun _ => 0) (fun ts c ss c' => ∃ more, ss = read.reverse ++ more ∧
      Phrase.Read .declarations ts c more c') c ((pure read.reverse : Parser (List Stmt)) c) :=
    .pure rfl ⟨[], (List.append_nil _).symm, .noDeclarations, .nil⟩
  unfold Parser.declarations
  apply Reads.peek
  cases hc : c.tokens with
  | nil => exact done
  | cons t ts =>
    change Reads _ _ c (EStateM.run _ c)
    split
    · exact done
    · exact done
    · refine (ih.declaration c (by simp [hc]) (by omega)).bind fun r c₁ h₁ => ?_
      cases r with
      | some s =>
        refine (ih.declarations (s :: read) c₁ (by omega)).weaken (by simp) ?_
        rintro ts₁ ss c₂ ⟨more, rfl, hss, hj⟩ ts₂ ⟨_, hr, hs, hi⟩
        cases hr
        exact ⟨s :: more, by simp, .moreDeclarations hs hss, hi.append hj⟩
      | none =>
        refine (ih.declarations read c₁ (by omega)).weaken (by simp) ?_
        rintro ts₁ ss c₂ - ts₂ ⟨_, hs, -⟩
        cases hs

theorem declaration_succ (ih : Sound fuel) (hc : c.tokens ≠ [])
    (hn : 32 * c.tokens.length + 24 ≤ fuel + 1) :
    Reads (fun _ => 1) (fun ts c r c' => ∃ s, r = some s ∧ Phrase.Read .declaration ts c s c') c
      (Parser.declaration (fuel + 1) c) := by
  unfold Parser.declaration
  exact .recovering hc (ih.declared c (by omega))

theorem declared_succ (ih : Sound fuel) (hn : 32 * c.tokens.length + 23 ≤ fuel + 1) :
    Reads (fun _ => 1) (Phrase.Read .declaration) c (Parser.declared (fuel + 1) c) := by
  unfold Parser.declared
  apply Reads.look
  change Reads _ _ c (EStateM.run _ c)
  split
  · rename_i lexeme line ts hc
    refine (Reads.skip hc).bind fun _ c₁ h₁ => ?_
    refine (ih.classDeclaration c₁ (by omega)).weaken (by simp) ?_
    rintro us s c₂ h _ ⟨rfl, hi⟩
    exact (h _ rfl).earlier hi
  · rename_i lexeme line lexeme' line' ts hc
    refine (Reads.skip hc).bind fun _ c₁ h₁ => ?_
    refine (ih.function .function c₁ (by omega)).bind fun f c₂ h₂ => .pure rfl ?_
    rintro us ⟨hf, hj⟩ _ ⟨rfl, hi⟩
    exact ⟨by simpa using Derives.functionDeclaration rfl hf, hi ▸ hj⟩
  · rename_i lexeme line ts hc
    refine (Reads.skip hc).bind fun _ c₁ h₁ => ?_
    refine (ih.varDeclaration c₁ (by omega)).weaken (by simp) ?_
    rintro us s c₂ ⟨hs, hj⟩ _ ⟨rfl, hi⟩
    exact ⟨.variableDeclaration rfl hs, hi ▸ hj⟩
  · refine (ih.statement c (by omega)).weaken (by simp) ?_
    rintro ts s c₁ ⟨dangling, -, hs, hi⟩
    exact ⟨.statement hs, hi⟩

theorem classDeclaration_succ (ih : Sound fuel) (hn : 32 * c.tokens.length + 1 ≤ fuel + 1) :
    Reads (fun _ => 0) (fun ts c s c' => ∀ t : Token, t.kind = .keyword .class →
      Phrase.Read .declaration (t :: ts) c s c') c (Parser.classDeclaration (fuel + 1) c) := by
  unfold Parser.classDeclaration
  refine (Reads.expectName rfl).bind fun name c₁ h₁ => ?_
  refine Reads.superclassReference.bind fun superclass? c₂ h₂ => ?_
  refine Reads.expect.bind fun l c₃ h₃ => ?_
  refine (ih.members [] [] c₃ (by omega)).bind fun fs c₄ h₄ => ?_
  refine Reads.expect.bind fun r c₅ h₅ => .pure rfl ?_
  rintro _ ⟨hm, rfl, hr⟩ ts₄ ⟨ms, gs, rfl, hf, hn⟩ _ ⟨hk, rfl, hl⟩ ts₂ hs _
    ⟨hi, t, rfl, ht, rfl⟩ c hc
  rw [hk] at hn
  rcases hs with ⟨rfl, rfl, hj⟩ | ⟨a, s, rfl, ha, hs, rfl, hj⟩
  · refine ⟨by simpa using Derives.base hc ht hl hr hf, ?_⟩
    rw [hj, hi] at hn
    exact hm ▸ hn
  · refine ⟨by simpa using Derives.subclass c₁.nextId hc ht ha hs hl hr hf, ?_⟩
    rw [hj] at hn
    rw [← hi, hm]
    exact Numbered.single.append hn

theorem members_succ (ih : Sound fuel) (methods getters : List Function)
    (hn : 32 * c.tokens.length + 2 ≤ fuel + 1) :
    Reads (fun _ => 0) (fun ts c r c' => ∃ ms gs,
      r = (methods.reverse ++ ms, getters.reverse ++ gs) ∧
      Phrase.Read .members ts c (ms, gs) c') c
      (Parser.members (fuel + 1) methods getters c) := by
  have done : Reads (fun _ => 0) (fun ts c r c' => ∃ ms gs,
      r = (methods.reverse ++ ms, getters.reverse ++ gs) ∧
      Phrase.Read .members ts c (ms, gs) c') c
      ((pure (methods.reverse, getters.reverse) : Parser (List Function × List Function)) c) :=
    .pure rfl ⟨[], [], by simp, .noMembers, .nil⟩
  unfold Parser.members
  apply Reads.look
  change Reads _ _ c (EStateM.run _ c)
  split
  · exact done
  · exact done
  · refine (ih.function .method c (by omega)).bind fun f c₁ h₁ => ?_
    refine (ih.members (f :: methods) getters c₁ (by omega)).weaken (by simp) ?_
    rintro ts₂ r c₂ ⟨ms, gs, rfl, hms, hj⟩ ts₁ ⟨hf, hi⟩
    refine ⟨f :: ms, gs, by simp, .method hf hms, ?_⟩
    simpa [Phrase.ids] using hi.append hj
  · refine (ih.getter c (by omega)).bind fun f c₁ h₁ => ?_
    refine (ih.members methods (f :: getters) c₁ (by omega)).weaken (by simp) ?_
    rintro ts₂ r c₂ ⟨ms, gs, rfl, hms, hj⟩ ts₁ ⟨hf, hi⟩
    refine ⟨ms, f :: gs, by simp, .getterMember hf hms, ?_⟩
    refine (hi.append hj).perm ?_
    simpa [Phrase.ids] using List.perm_append_comm_assoc _ _ _

theorem function_succ (ih : Sound fuel) (sort : FunctionSort)
    (hn : 32 * c.tokens.length + 1 ≤ fuel + 1) :
    Reads (fun _ => 1) (Phrase.Read .function) c (Parser.function (fuel + 1) sort c) := by
  unfold Parser.function
  refine (Reads.expectName rfl).bind fun name c₁ h₁ => ?_
  refine Reads.expect.bind fun l c₂ h₂ => ?_
  refine (ih.functionRest (some name) name.line sort c₂ (by omega)).weaken (by simp) ?_
  rintro ts₂ f c₃ ⟨parameters, body, rfl, hf, hk⟩ _ ⟨hj, rfl, hl⟩ _ ⟨hi, t, rfl, ht, rfl⟩
  rw [hj, hi] at hk
  exact ⟨by simpa using Derives.function ht hl hf, hk⟩

theorem getter_succ (ih : Sound fuel) (hn : 32 * c.tokens.length + 1 ≤ fuel + 1) :
    Reads (fun _ => 1) (Phrase.Read .getter) c (Parser.getter (fuel + 1) c) := by
  unfold Parser.getter
  refine (Reads.expectName rfl).bind fun name c₁ h₁ => ?_
  refine Reads.expect.bind fun l c₂ h₂ => ?_
  refine (ih.block c₂ (by omega)).bind fun body c₃ h₃ => .pure rfl ?_
  rintro ts₂ hb _ ⟨hj, rfl, hl⟩ _ ⟨hi, t, rfl, ht, rfl⟩
  obtain ⟨hb, hk⟩ := hb l hl
  rw [hj, hi] at hk
  exact ⟨by simpa using Derives.getter ht hb, hk⟩

theorem varDeclaration_succ (ih : Sound fuel) (hn : 32 * c.tokens.length + 1 ≤ fuel + 1) :
    Reads (fun _ => 0) (Phrase.Read .variable) c (Parser.varDeclaration (fuel + 1) c) := by
  unfold Parser.varDeclaration
  refine (Reads.expectName rfl).bind fun name c₁ h₁ => ?_
  refine (ih.initializer c₁ (by omega)).bind fun initializer? c₂ h₂ => ?_
  refine Reads.expect.bind fun r c₃ h₃ => .pure rfl ?_
  match initializer? with
  | none =>
    rintro _ ⟨hk, rfl, hr⟩ _ ⟨rfl, hj⟩ _ ⟨hi, t, rfl, ht, rfl⟩
    refine ⟨.uninitialized ht hr, ?_⟩
    rw [hk, hj, hi]
    exact .nil
  | some e =>
    rintro _ ⟨hk, rfl, hr⟩ _ ⟨eq, us, rfl, heq, he, hj⟩ _ ⟨hi, t, rfl, ht, rfl⟩
    refine ⟨by simpa using Derives.initialized ht heq hr he, ?_⟩
    rw [hk, ← hi]
    exact hj

theorem initializer_succ (ih : Sound fuel) (hn : 32 * c.tokens.length + 21 ≤ fuel + 1) :
    Reads (fun _ => 0) (fun ts c r c' => match r with
      | none => ts = [] ∧ c'.nextId = c.nextId
      | some e => ∃ eq us, ts = eq :: us ∧ eq.kind = .symbol .equal ∧
        Phrase.Read .expression us c e c') c
      (Parser.initializer (fuel + 1) c) := by
  unfold Parser.initializer
  refine Reads.accept.bind fun b c₁ h₁ => ?_
  cases b with
  | false =>
    refine .pure rfl ?_
    rintro _ ⟨hi, rfl, -⟩
    exact ⟨rfl, hi⟩
  | true =>
    refine (ih.expression c₁ (by omega)).bind fun e c₂ h₂ => .pure rfl ?_
    rintro ts₂ he _ ⟨hi, t, rfl, ht, -⟩
    exact ⟨t, ts₂, by simp, ht, he.earlier hi⟩

/-- The numbers of a `for` stand behind those of its body where they are in the increment. -/
private theorem ids_ofFor (start? : Option Stmt) (condition? increment? : Option Expr)
    (body : Stmt) :
    (Stmt.ofFor start? condition? increment? body).ids.Perm
      (Phrase.ids .start start? ++ (Phrase.ids .optional condition? ++
        (Phrase.ids .optional increment? ++ body.ids))) := by
  have looped : (Stmt.while (condition?.getD (.literal (.bool true))) body increment?).ids.Perm
      (Phrase.ids .optional condition? ++ (Phrase.ids .optional increment? ++ body.ids)) := by
    have hc : (condition?.getD (.literal (.bool true))).ids = Phrase.ids .optional condition? := by
      cases condition? <;> rfl
    cases increment? with
    | none => simp [Phrase.ids, hc]
    | some i => simpa [Phrase.ids, hc] using List.perm_append_comm.append_left _
  cases start? with
  | none => simpa [Stmt.ofFor, Phrase.ids] using looped
  | some s => simpa [Stmt.ofFor, Phrase.ids] using looped.append_left s.ids

private theorem jump_read {s : Stmt} {what : Expectation} {t : Token} {ts : List Token}
    (hc : c.tokens = t :: ts) (hi : s.ids = [])
    (h : ∀ r : Token, r.kind = what.wanted → Derives (.statement false) [t, r] s) :
    Reads (fun _ => 1) Phrase.ReadStatement c
      ((do Parser.skip; Parser.jump s what : Parser Stmt) c) := by
  refine (Reads.skip hc).bind fun _ c₁ h₁ => ?_
  refine Reads.expect.bind fun r c₂ h₂ => .pure rfl ?_
  rintro _ ⟨hj, rfl, hr⟩ _ ⟨rfl, hk⟩
  refine ⟨false, by simp, h r hr, ?_⟩
  rw [Phrase.ids, hi, hj, hk]
  exact .nil

theorem statement_succ (ih : Sound fuel) (hn : 32 * c.tokens.length + 22 ≤ fuel + 1) :
    Reads (fun _ => 1) Phrase.ReadStatement c (Parser.statement (fuel + 1) c) := by
  have simple : Reads (fun _ => 1) Phrase.ReadStatement c (Parser.expressionStatement fuel c) := by
    refine (ih.expressionStatement c (by omega)).weaken (by simp) ?_
    rintro _ _ c₁ ⟨e, us, r, rfl, rfl, hr, he, hi⟩
    exact ⟨false, by simp, .expressionStatement hr he, hi⟩
  unfold Parser.statement
  apply Reads.look
  cases hc : c.tokens with
  | nil => exact simple
  | cons t ts =>
    change Reads _ _ c (EStateM.run _ c)
    split
    · rename_i ht
      refine (Reads.skip hc).bind fun _ c₁ h₁ => ?_
      refine (ih.forStatement c₁ (by omega)).weaken (by simp) ?_
      rintro us s c₂ h _ ⟨rfl, hi⟩
      exact (h t ht).earlier hi
    · rename_i ht
      refine (Reads.skip hc).bind fun _ c₁ h₁ => ?_
      refine (ih.ifStatement c₁ (by omega)).weaken (by simp) ?_
      rintro us s c₂ h _ ⟨rfl, hi⟩
      exact (h t ht).earlier hi
    · rename_i ht
      refine (Reads.skip hc).bind fun _ c₁ h₁ => ?_
      refine (ih.printStatement c₁ (by omega)).weaken (by simp) ?_
      rintro us s c₂ h _ ⟨rfl, hi⟩
      exact ⟨false, by simp, (h t ht).earlier hi⟩
    · rename_i ht
      refine (Reads.skip hc).bind fun _ c₁ h₁ => ?_
      refine (ih.returnStatement t.line c₁ (by omega)).weaken (by simp) ?_
      rintro us s c₂ h _ ⟨rfl, hi⟩
      exact ⟨false, by simp, (h t ht rfl).earlier hi⟩
    · rename_i ht
      refine (Reads.skip hc).bind fun _ c₁ h₁ => ?_
      refine (ih.whileStatement c₁ (by omega)).weaken (by simp) ?_
      rintro us s c₂ h _ ⟨rfl, hi⟩
      exact (h t ht).earlier hi
    · exact jump_read hc rfl fun r hr => .break ‹_› hr
    · exact jump_read hc rfl fun r hr => .continue ‹_› hr
    · rename_i ht
      refine (Reads.skip hc).bind fun _ c₁ h₁ => ?_
      refine (ih.block c₁ (by omega)).bind fun body c₂ h₂ => .pure rfl ?_
      rintro us h _ ⟨rfl, hi⟩
      obtain ⟨hb, hj⟩ := h t ht
      exact ⟨false, by simp, by simpa using Derives.blockStatement hb, hi ▸ hj⟩
    · exact simple

theorem expressionStatement_succ (ih : Sound fuel)
    (hn : 32 * c.tokens.length + 21 ≤ fuel + 1) :
    Reads (fun _ => 1) (fun ts c s c' => ∃ e us r, s = .expression e ∧ ts = us ++ [r] ∧
      r.kind = .symbol .semicolon ∧ Phrase.Read .expression us c e c') c
      (Parser.expressionStatement (fuel + 1) c) := by
  unfold Parser.expressionStatement
  refine (ih.expression c (by omega)).bind fun e c₁ h₁ => ?_
  refine Reads.expect.bind fun r c₂ h₂ => .pure rfl ?_
  rintro _ ⟨hj, rfl, hr⟩ ts₁ ⟨he, hi⟩
  exact ⟨e, ts₁, r, rfl, rfl, hr, he, hj ▸ hi⟩

theorem printStatement_succ (ih : Sound fuel) (hn : 32 * c.tokens.length + 21 ≤ fuel + 1) :
    Reads (fun _ => 0) (fun ts c s c' => ∀ t : Token, t.kind = .keyword .print →
      Phrase.Read (.statement false) (t :: ts) c s c') c (Parser.printStatement (fuel + 1) c) := by
  unfold Parser.printStatement
  refine (ih.expression c (by omega)).bind fun e c₁ h₁ => ?_
  refine Reads.expect.bind fun r c₂ h₂ => .pure rfl ?_
  rintro _ ⟨hj, rfl, hr⟩ ts₁ ⟨he, hi⟩ t ht
  exact ⟨by simpa using Derives.print ht hr he, hj ▸ hi⟩

theorem unlessNext_succ (ih : Sound fuel) (s : Symbol)
    (hn : 32 * c.tokens.length + 21 ≤ fuel + 1) :
    Reads (fun _ => 0) (Phrase.Read .optional) c (Parser.unlessNext (fuel + 1) s c) := by
  unfold Parser.unlessNext
  refine Reads.nextIs.bind fun b c₁ h₁ => ?_
  cases b with
  | true =>
    refine .pure rfl ?_
    rintro _ ⟨rfl, rfl, -⟩
    exact ⟨.absent, .nil⟩
  | false =>
    refine (ih.expression c₁ (by omega)).bind fun e c₂ h₂ => .pure rfl ?_
    rintro ts₂ ⟨he, hi⟩ _ ⟨rfl, rfl, -⟩
    exact ⟨by simpa using Derives.present he, hi⟩

theorem returnStatement_succ (ih : Sound fuel) (line : Nat)
    (hn : 32 * c.tokens.length + 22 ≤ fuel + 1) :
    Reads (fun _ => 0) (fun ts c s c' => ∀ t : Token, t.kind = .keyword .return → t.line = line →
      Phrase.Read (.statement false) (t :: ts) c s c') c
      (Parser.returnStatement (fuel + 1) line c) := by
  unfold Parser.returnStatement
  refine (ih.unlessNext .semicolon c (by omega)).bind fun value? c₁ h₁ => ?_
  refine Reads.expect.bind fun r c₂ h₂ => .pure rfl ?_
  rintro _ ⟨hj, rfl, hr⟩ ts₁ ⟨he, hi⟩ t ht rfl
  refine ⟨by simpa using Derives.return ht hr he, ?_⟩
  cases value? <;> exact hj ▸ hi

theorem whileStatement_succ (ih : Sound fuel) (hn : 32 * c.tokens.length + 1 ≤ fuel + 1) :
    Reads (fun _ => 0) (fun ts c s c' => ∀ t : Token, t.kind = .keyword .while →
      Phrase.ReadStatement (t :: ts) c s c') c (Parser.whileStatement (fuel + 1) c) := by
  unfold Parser.whileStatement
  refine Reads.expect.bind fun l c₁ h₁ => ?_
  refine (ih.expression c₁ (by omega)).bind fun condition c₂ h₂ => ?_
  refine Reads.expect.bind fun r c₃ h₃ => ?_
  refine (ih.statement c₃ (by omega)).bind fun body c₄ h₄ => .pure rfl ?_
  rintro ts₄ ⟨dangling, hd, hs, hn⟩ _ ⟨hk, rfl, hr⟩ ts₂ ⟨hc, hj⟩ _ ⟨hi, rfl, hl⟩ t ht
  rw [hk] at hn
  refine ⟨dangling, hd, by simpa using Derives.while ht hl hr hc hs, ?_⟩
  exact hi ▸ hj.append hn

theorem ifStatement_succ (ih : Sound fuel) (hn : 32 * c.tokens.length + 1 ≤ fuel + 1) :
    Reads (fun _ => 0) (fun ts c s c' => ∀ t : Token, t.kind = .keyword .if →
      Phrase.ReadStatement (t :: ts) c s c') c (Parser.ifStatement (fuel + 1) c) := by
  unfold Parser.ifStatement
  refine Reads.expect.bind fun l c₁ h₁ => ?_
  refine (ih.expression c₁ (by omega)).bind fun condition c₂ h₂ => ?_
  refine Reads.expect.bind fun r c₃ h₃ => ?_
  refine (ih.statement c₃ (by omega)).bind fun thenBranch c₄ h₄ => ?_
  refine Reads.accept.bind fun b c₅ h₅ => ?_
  cases b with
  | false =>
    refine .pure rfl ?_
    rintro _ ⟨hm, rfl, hne⟩ ts₄ ⟨dangling, hd, hs, hn⟩ _ ⟨hk, rfl, hr⟩ ts₂ ⟨hc, hj⟩ _ ⟨hi, rfl, hl⟩
      t ht
    rw [hk, ← hm] at hn
    refine ⟨true, fun _ => hne, by simpa using Derives.ifThen ht hl hr hc hs, ?_⟩
    exact hi ▸ hj.append hn
  | true =>
    refine (ih.statement c₅ (by omega)).bind fun elseBranch c₆ h₆ => .pure rfl ?_
    rintro ts₆ ⟨dangling', hd', hs', hp⟩ _ ⟨hm, e, rfl, he, hh⟩ ts₄ ⟨dangling, hd, hs, hn⟩ _
      ⟨hk, rfl, hr⟩ ts₂ ⟨hc, hj⟩ _ ⟨hi, rfl, hl⟩ t ht
    cases dangling with
    | true => exact absurd he (hd rfl e hh)
    | false =>
      rw [hk] at hn
      rw [hm] at hp
      refine ⟨dangling', hd', by simpa using Derives.ifElse ht hl hr he hc hs hs', ?_⟩
      exact hi ▸ hj.append (hn.append hp)

theorem forStart_succ (ih : Sound fuel) (hn : 32 * c.tokens.length + 22 ≤ fuel + 1) :
    Reads (fun _ => 0) (Phrase.Read .start) c (Parser.forStart (fuel + 1) c) := by
  have simple : Reads (fun _ => 0) (Phrase.Read .start) c
      ((do return some (← Parser.expressionStatement fuel) : Parser (Option Stmt)) c) := by
    refine (ih.expressionStatement c (by omega)).bind fun s c₁ h₁ => .pure rfl ?_
    rintro _ ⟨e, us, r, rfl, rfl, hr, he, hi⟩
    exact ⟨by simpa using Derives.expressionStart hr he, hi⟩
  unfold Parser.forStart
  apply Reads.peek
  cases hc : c.tokens with
  | nil => exact simple
  | cons t ts =>
    change Reads _ _ c (EStateM.run _ c)
    split
    · rename_i ht
      refine (Reads.skip hc).bind fun _ c₁ h₁ => .pure rfl ?_
      rintro _ ⟨rfl, hi⟩
      exact ⟨.noStart (Option.some.inj ht), hi ▸ .nil⟩
    · rename_i ht
      refine (Reads.skip hc).bind fun _ c₁ h₁ => ?_
      refine (ih.varDeclaration c₁ (by omega)).bind fun s c₂ h₂ => .pure rfl ?_
      rintro ts₂ ⟨hs, hj⟩ _ ⟨rfl, hi⟩
      exact ⟨by simpa using Derives.variableStart (Option.some.inj ht) hs, hi ▸ hj⟩
    · exact simple

theorem forStatement_succ (ih : Sound fuel) (hn : 32 * c.tokens.length + 1 ≤ fuel + 1) :
    Reads (fun _ => 0) (fun ts c s c' => ∀ t : Token, t.kind = .keyword .for →
      Phrase.ReadStatement (t :: ts) c s c') c (Parser.forStatement (fuel + 1) c) := by
  unfold Parser.forStatement
  refine Reads.expect.bind fun l c₁ h₁ => ?_
  refine (ih.forStart c₁ (by omega)).bind fun start? c₂ h₂ => ?_
  refine (ih.unlessNext .semicolon c₂ (by omega)).bind fun condition? c₃ h₃ => ?_
  refine Reads.expect.bind fun m c₄ h₄ => ?_
  refine (ih.unlessNext .rightParen c₄ (by omega)).bind fun increment? c₅ h₅ => ?_
  refine Reads.expect.bind fun r c₆ h₆ => ?_
  refine (ih.statement c₆ (by omega)).bind fun body c₇ h₇ => .pure rfl ?_
  rintro ts₇ ⟨dangling, hd, hs, hq⟩ _ ⟨hp, rfl, hr⟩ ts₅ ⟨hinc, ho⟩ _ ⟨hm, rfl, hsemi⟩ ts₃
    ⟨hcond, hk⟩
    ts₂ ⟨hstart, hj⟩ _ ⟨hi, rfl, hl⟩ t ht
  refine ⟨dangling, hd, ?_, ?_⟩
  · rw [Parser.forLoop_eq]
    simpa using Derives.for ht hl hsemi hr hstart hcond hinc hs
  · rw [hp] at hq
    rw [hm] at ho
    rw [Parser.forLoop_eq]
    exact (hi ▸ hj.append (hk.append (ho.append hq))).perm (ids_ofFor ..).symm

/-- With enough fuel for the tokens, every parser reads its phrase. -/
theorem of_fuel (fuel : Nat) : Sound fuel := by
  induction fuel with
  | zero =>
    constructor
    case operand =>
      intro l c hn
      have := l.rank_bounds
      omega
    all_goals
      intros
      omega
  | succ fuel ih =>
    exact {
      level := fun l _ => level_succ ih l
      operand := fun l _ => operand_succ ih l
      chain := fun l left _ => chain_succ ih l left
      expression := fun _ => expression_succ ih
      ternary := fun _ => ternary_succ ih
      assigned := fun _ => assigned_succ ih
      unary := fun _ => unary_succ ih
      call := fun _ => call_succ ih
      calls := fun object _ => calls_succ ih object
      arguments := fun _ => arguments_succ ih
      argumentList := fun count _ => argumentList_succ ih count
      primary := fun _ => primary_succ ih
      group := fun _ => group_succ ih
      lambda := fun line _ => lambda_succ ih line
      functionRest := fun name? line sort _ => functionRest_succ ih name? line sort
      block := fun _ => block_succ ih
      declarations := fun read _ => declarations_succ ih read
      declaration := fun _ => declaration_succ ih
      declared := fun _ => declared_succ ih
      classDeclaration := fun _ => classDeclaration_succ ih
      members := fun methods getters _ => members_succ ih methods getters
      function := fun sort _ => function_succ ih sort
      getter := fun _ => getter_succ ih
      varDeclaration := fun _ => varDeclaration_succ ih
      initializer := fun _ => initializer_succ ih
      statement := fun _ => statement_succ ih
      expressionStatement := fun _ => expressionStatement_succ ih
      printStatement := fun _ => printStatement_succ ih
      returnStatement := fun line _ => returnStatement_succ ih line
      unlessNext := fun s _ => unlessNext_succ ih s
      whileStatement := fun _ => whileStatement_succ ih
      ifStatement := fun _ => ifStatement_succ ih
      forStatement := fun _ => forStatement_succ ih
      forStart := fun _ => forStart_succ ih }

/-- A program is read to its end. -/
theorem program (fuel : Nat) (read : List Stmt) (c : Cursor)
    (hn : 32 * c.tokens.length + 25 ≤ fuel) :
    Reads (fun _ => 0) (fun ts c ss c' => c'.tokens = [] ∧ ∃ more, ss = read.reverse ++ more ∧
      Phrase.Read .declarations ts c more c') c (Parser.program fuel read c) := by
  induction fuel generalizing read c with
  | zero => omega
  | succ fuel ih =>
    unfold Parser.program
    apply Reads.peek
    cases hc : c.tokens with
    | nil => exact .pure rfl ⟨hc, [], (List.append_nil _).symm, .noDeclarations, .nil⟩
    | cons t ts =>
      change Reads _ _ c (EStateM.run _ c)
      refine ((of_fuel fuel).declaration c (by simp [hc]) (by omega)).bind fun r c₁ h₁ => ?_
      match r with
      | some s =>
        refine (ih (s :: read) c₁ (by omega)).weaken (by simp) ?_
        rintro ts₁ ss c₂ ⟨he, more, rfl, hss, hj⟩ ts₂ ⟨_, hr, hs, hi⟩
        cases hr
        exact ⟨he, s :: more, by simp, .moreDeclarations hs hss, hi.append hj⟩
      | none =>
        refine (ih read c₁ (by omega)).weaken (by simp) ?_
        rintro ts₁ ss c₂ - ts₂ ⟨_, hs, -⟩
        cases hs

end Sound

theorem Parser.recovering_ne_failed {α : Type} (p : Parser α) (c c' : Cursor) (d : Diagnostic) :
    Parser.recovering p c ≠ .error (.failed d) c' := by
  unfold Parser.recovering
  split <;> exact fun h => nomatch h

theorem Parser.declaration_ne_failed (fuel : Nat) (c c' : Cursor) (d : Diagnostic) :
    Parser.declaration fuel c ≠ .error (.failed d) c' := by
  unfold Parser.declaration
  cases fuel with
  | zero => exact fun h => nomatch h
  | succ fuel => exact Parser.recovering_ne_failed _ _ _ _

/-- A program with errors is still read to its end. -/
theorem Parser.program_ne_failed (fuel : Nat) (read : List Stmt) (c c' : Cursor) (d : Diagnostic) :
    Parser.program fuel read c ≠ .error (.failed d) c' := by
  induction fuel generalizing read c with
  | zero => exact fun h => nomatch h
  | succ fuel ih =>
    unfold Parser.program
    show EStateM.bind Parser.peek? _ c ≠ _
    show EStateM.run _ c ≠ _
    split
    · exact fun h => nomatch h
    · show EStateM.bind (Parser.declaration fuel) _ c ≠ _
      unfold EStateM.bind
      split
      · rename_i r c₁ hr
        cases r with
        | some s => exact ih _ _
        | none => exact ih _ _
      · rename_i e c₁ hr
        rintro h
        cases h
        exact Parser.declaration_ne_failed _ _ _ _ hr

namespace Program

variable {firstId endLine : Nat} {tokens : List Token}

theorem ofTokens_eq_ok {ss : List Stmt} {c : Cursor}
    (hp : Parser.program (fuelFor tokens.length) [] ⟨tokens, endLine, firstId, []⟩ = .ok ss c)
    (hc : c.errors = []) : ofTokens firstId tokens endLine = .ok ⟨ss, c.nextId⟩ := by
  unfold ofTokens
  rw [hp]
  simp [hc]

/-- The statements of a program are derived by the grammar. -/
theorem ofTokens_ok {p : Program} (h : ofTokens firstId tokens endLine = .ok p) :
    Derives .declarations tokens p.statements ∧
      Numbered firstId (stmtsIds p.statements) p.nextId := by
  have hr := Sound.program (fuelFor tokens.length) [] ⟨tokens, endLine, firstId, []⟩
    (by simp only [fuelFor]; omega)
  unfold ofTokens at h
  match hp : Parser.program (fuelFor tokens.length) [] ⟨tokens, endLine, firstId, []⟩ with
  | .ok ss c =>
    rw [hp] at h hr
    obtain ⟨-, ts, ht, -, hq⟩ := hr
    dsimp only at h ht
    split at h
    · rename_i he
      cases h
      obtain ⟨hc, more, rfl, hd, hi⟩ := hq (List.isEmpty_iff.mp he)
      rw [hc, List.append_nil] at ht
      exact ⟨ht ▸ hd, hi⟩
    · cases h
  | .error _ c =>
    rw [hp] at h
    cases h

/-- A text without a program has an error. -/
theorem ofTokens_error {errors : List Diagnostic}
    (h : ofTokens firstId tokens endLine = .error errors) : errors ≠ [] := by
  have hr := Sound.program (fuelFor tokens.length) [] ⟨tokens, endLine, firstId, []⟩
    (by simp only [fuelFor]; omega)
  unfold ofTokens at h
  match hp : Parser.program (fuelFor tokens.length) [] ⟨tokens, endLine, firstId, []⟩ with
  | .ok ss c =>
    rw [hp] at h
    dsimp only at h
    split at h
    · cases h
    · rename_i he
      cases h
      simpa using he
  | .error (.failed d) c => exact absurd hp (Parser.program_ne_failed _ _ _ _ _)
  | .error .outOfFuel c =>
    rw [hp] at hr
    exact hr.elim

end Program

end LoxLang
