import FormulaShell.Proofs.Script.Shapes

namespace FormulaShell.Script

open FormulaShell.Text FormulaShell.Formula

/-- White space, and then the start of a comment. -/
structure IsTail (x : List Char) : Prop where
  slash : ∃ rest, trimStart x = '/' :: rest

/-- `b` is `a` with the tail after it. White space of the tail can be skipped at the end of `a`. -/
def Tailed (x a b : List Char) : Prop := b = a ++ x ∨ a = [] ∧ b = trimStart x

section

variable {x a b : List Char}

theorem IsTail.trimStart_trimStart (hx : IsTail x) : trimStart (trimStart x) = trimStart x := by
  obtain ⟨rest, hr⟩ := hx.slash
  rw [hr]
  rfl

theorem IsTail.head? (hx : IsTail x) : ∀ c ∈ x.head?, isBlank c ∨ c = '/' := by
  intro c hc
  obtain ⟨rest, rfl⟩ := List.head?_eq_some_iff.mp hc
  by_cases hb : isBlank c
  · exact .inl hb
  · obtain ⟨_, hr⟩ := hx.slash
    rw [trimStart, List.dropWhile_cons_of_neg hb] at hr
    exact .inr (List.cons.inj hr).1

theorem Tailed.head? (hx : IsTail x) (h : Tailed x [] b) : ∀ c ∈ b.head?, isBlank c ∨ c = '/' := by
  obtain rfl | ⟨-, rfl⟩ := h
  · exact hx.head?
  · obtain ⟨rest, hr⟩ := hx.slash
    rw [hr]
    rintro _ ⟨⟩
    exact .inr rfl

theorem Tailed.cons {c : Char} (h : Tailed x (c :: a) b) : b = c :: (a ++ x) := by
  obtain rfl | ⟨ha, -⟩ := h
  · rfl
  · cases ha

theorem Tailed.trimStart (hx : IsTail x) (h : Tailed x a b) :
    Tailed x (trimStart a) (trimStart b) := by
  obtain rfl | ⟨rfl, rfl⟩ := h
  · by_cases ha : Text.trimStart a = []
    · exact .inr ⟨ha, trimStart_append_of_nil ha x⟩
    · exact .inl (trimStart_append ha x)
  · exact .inr ⟨rfl, hx.trimStart_trimStart⟩

abbrev Found (x : List Char) : Option (List Char) → Option (List Char) → Prop :=
  Option.Rel fun a b => b = a ++ x

theorem Found.isSome {u v : Option (List Char)} (h : Found x u v) : v.isSome = u.isSome := by
  cases h <;> rfl

abbrev Headed (x : List Char) :
    Option (List Char × List Char) → Option (List Char × List Char) → Prop :=
  Option.Rel fun p q => q = (p.1, p.2 ++ x)

theorem Tailed.after? (hx : IsTail x) {c : Char} (hc : isBlank c = false) (hs : c ≠ '/')
    (h : Tailed x a b) : Found x (after? c a) (after? c b) := by
  cases a with
  | nil =>
    have hb : Script.after? c b = none := by
      cases b with
      | nil => rfl
      | cons d b =>
        have hd : d ≠ c := by
          rintro rfl
          obtain hd | hd := h.head? hx d rfl
          · simp [hc] at hd
          · exact hs hd
        simp [Script.after?, hd]
    rw [hb]
    exact .none
  | cons d a =>
    rw [h.cons, Script.after?, Script.after?]
    split
    · exact .some rfl
    · exact .none

theorem isWordChar_of_blank_or_slash {c : Char} (h : isBlank c ∨ c = '/') :
    isWordChar c = false := by
  obtain h | rfl := h
  · exact isWordChar_of_isStop (isStop_of_isBlank h)
  · decide +kernel

theorem span_append {p : Char → Bool} (hp : ∀ c ∈ x.head?, p c = false) (a : List Char) :
    (a ++ x).takeWhile p = a.takeWhile p ∧ (a ++ x).dropWhile p = a.dropWhile p ++ x := by
  induction a with
  | nil =>
    cases x with
    | nil => exact ⟨rfl, rfl⟩
    | cons c x =>
      have hc := hp c rfl
      exact ⟨by simp [hc], by simp [hc]⟩
  | cons c a ih =>
    cases hc : p c with
    | false => simp [hc]
    | true => simp [hc, ih]

theorem rel_map {α β : Type} {r : α → α → Prop} {t : β → β → Prop} {u v : Option α}
    {f g : α → β} (h : Option.Rel r u v) (hf : ∀ p q, r p q → t (f p) (g q)) :
    Option.Rel t (u.map f) (v.map g) := by
  cases h with
  | none => exact .none
  | some hr => exact .some (hf _ _ hr)

theorem rel_bind {α β : Type} {r : α → α → Prop} {t : β → β → Prop} {u v : Option α}
    {f g : α → Option β} (h : Option.Rel r u v) (hf : ∀ p q, r p q → Option.Rel t (f p) (g q)) :
    Option.Rel t (u.bind f) (v.bind g) := by
  cases h with
  | none => exact .none
  | some hr => exact hf _ _ hr

theorem Tailed.word? (hx : IsTail x) (h : Tailed x a b) :
    Headed x (word? a) (word? b) := by
  obtain rfl | ⟨rfl, rfl⟩ := h
  · obtain ⟨ht, hd⟩ := span_append (fun c hc => isWordChar_of_blank_or_slash (hx.head? c hc)) a
    rw [word?_eq, word?_eq, ht, hd]
    split
    · exact .none
    · exact .some rfl
  · have hhead := Tailed.head? hx (.inr ⟨rfl, rfl⟩)
    rw [word?_of_head? fun c hc => isWordChar_of_blank_or_slash (hhead c hc)]
    exact .none

theorem Tailed.afterWord? (hx : IsTail x) (h : Tailed x a b) :
    Option.Rel (Tailed x) (afterWord? a) (afterWord? b) :=
  rel_map (h.word? hx) fun p q hp => by
    subst hp
    exact Tailed.trimStart hx (.inl rfl)

theorem Tailed.getD {u v : Option (List Char)} (hf : Found x u v) (h : Tailed x a b) :
    Tailed x (u.getD a) (v.getD b) := by
  cases hf with
  | none => exact h
  | some he => exact .inl he

theorem Tailed.afterParam? (hx : IsTail x) (h : Tailed x a b) :
    Option.Rel (Tailed x) (afterParam? a) (afterParam? b) := by
  refine rel_bind (h.afterWord? hx) fun p q hp => ?_
  refine rel_bind (hp.after? hx (by decide) (by decide)) fun p q hp => ?_
  refine rel_bind (Tailed.afterWord? hx (Tailed.trimStart hx (.inl hp))) fun p q hp => ?_
  exact .some (.getD (hp.after? hx (by decide) (by decide)) hp)

theorem Tailed.afterParams? (hx : IsTail x) (h : Tailed x a b) :
    Option.Rel (Tailed x) (afterParams? a) (afterParams? b) := by
  induction hn : a.length using Nat.strongRecOn generalizing a b with
  | _ n ih =>
    subst hn
    have ht := h.trimStart hx
    have hclose := ht.after? hx (c := ')') (by decide) (by decide)
    have hparam := ht.afterParam? hx
    rw [afterParams?_eq, afterParams?_eq]
    have hlt : ∀ p, Script.afterParam? (Text.trimStart a) = some p → p.length < a.length :=
      fun p hp => Nat.lt_of_lt_of_le (length_afterParam? hp) (length_trimStart a)
    generalize Script.after? ')' (Text.trimStart a) = u at hclose ⊢
    generalize Script.after? ')' (Text.trimStart b) = v at hclose ⊢
    cases hclose with
    | some he => exact .some (.inl he)
    | none =>
      generalize Script.afterParam? (Text.trimStart a) = u at hparam hlt ⊢
      generalize Script.afterParam? (Text.trimStart b) = v at hparam ⊢
      cases hparam with
      | none => exact .none
      | some hp => exact ih _ (hlt _ rfl) hp rfl

theorem Tailed.afterResult? (hx : IsTail x) (h : Tailed x a b) :
    Option.Rel (Tailed x) (afterResult? a) (afterResult? b) := by
  refine rel_bind (h.afterWord? hx) fun p q hp => ?_
  refine rel_bind (hp.after? hx (by decide) (by decide)) fun p q hp => ?_
  refine rel_bind (Tailed.afterParams? hx (.inl hp)) fun p q hp => ?_
  refine rel_bind ((hp.trimStart hx).after? hx (by decide) (by decide)) fun p q hp => ?_
  exact Tailed.afterWord? hx (Tailed.trimStart hx (.inl hp))

theorem Tailed.isDefinition (hx : IsTail x) (h : Tailed x a b) :
    isDefinition b = isDefinition a := by
  have hrel := h.afterResult? hx
  rw [isDefinition_eq, isDefinition_eq]
  generalize Script.afterResult? a = u at hrel ⊢
  generalize Script.afterResult? b = v at hrel ⊢
  cases hrel with
  | none => rfl
  | @some p q hp =>
    cases p with
    | nil =>
      cases hq : q.head? with
      | none => simp [hq]
      | some c =>
        have hc : c ≠ '=' ∧ c ≠ '{' := by
          obtain hc | rfl := Tailed.head? hx hp c hq
          · have hstop := isStop_of_isBlank hc
            exact ⟨ne_of_isStop hstop (by decide), ne_of_isStop hstop (by decide)⟩
          · decide
        simp [hq, hc]
    | cons c p => rw [hp.cons]; rfl

theorem Tailed.assignmentHead? (hx : IsTail x) (h : Tailed x a b) :
    Headed x (assignmentHead? a) (assignmentHead? b) := by
  refine rel_bind (h.after? hx (by decide) (by decide)) fun p q hp => ?_
  refine rel_bind (Tailed.after? hx (by decide) (by decide) (.inl hp)) fun p q hp => ?_
  refine rel_bind (Tailed.after? hx (by decide) (by decide) (.inl hp)) fun p q hp => ?_
  refine rel_bind ((Tailed.trimStart hx (.inl hp)).after? hx (by decide) (by decide))
    fun p q hp => ?_
  refine rel_bind ((Tailed.trimStart hx (.inl hp)).word? hx) fun p q hp => ?_
  subst hp
  refine rel_bind ((Tailed.trimStart hx (.inl rfl)).after? hx (by decide) (by decide))
    fun r s hr => ?_
  exact .some (by rw [hr])

theorem Tailed.formulaHead? (hx : IsTail x) (h : Tailed x a b) :
    Headed x (formulaHead? a) (formulaHead? b) := by
  refine rel_bind (h.word? hx) fun p q hp => ?_
  subst hp
  refine rel_bind ((Tailed.trimStart hx (.inl rfl)).after? hx (by decide) (by decide))
    fun r s hr => ?_
  have hsecond := (Tailed.after? hx (c := '=') (by decide) (by decide) (.inl hr)).isSome
  rw [hsecond]
  split
  · exact .none
  · exact .some (by rw [hr])

end

end FormulaShell.Script
