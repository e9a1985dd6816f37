import FormulaShell.Proofs.Formula.DefinitionParsing
import FormulaShell.Proofs.Formula.Expr

namespace FormulaShell.Formula

namespace Expr

mutual

/-- The names that are read and the functions that are called, with their offsets, in order. -/
def mentions : Expr → List (String × Nat)
  | number _ | text _ | boolean _ => []
  | name n offset => [(n, offset)]
  | record fields => fieldMentions fields
  | table items | chain items => allMentions items
  | unary _ e | percent e | field e _ => mentions e
  | binary _ l r => mentions l ++ mentions r
  | call f args offset => (f, offset) :: allMentions args

def allMentions : List Expr → List (String × Nat)
  | [] => []
  | e :: rest => mentions e ++ allMentions rest

def fieldMentions : List (String × Expr) → List (String × Nat)
  | [] => []
  | (_, e) :: rest => mentions e ++ fieldMentions rest

end

theorem mentions_apply (sign : Sign) (e : Expr) : (sign.apply e).mentions = e.mentions := by
  rw [Sign.apply]
  split <;> simp [mentions]

theorem allMentions_singleton (e : Expr) : allMentions [e] = e.mentions := by
  rw [allMentions, allMentions, List.append_nil]

theorem fieldMentions_singleton (n : String) (e : Expr) : fieldMentions [(n, e)] = e.mentions := by
  rw [fieldMentions, fieldMentions, List.append_nil]

theorem mentions_inSequence (es : List Expr) : (inSequence es).mentions = allMentions es := by
  unfold inSequence
  split
  · rw [allMentions_singleton]
  · rw [mentions]

theorem mem_allMentions {m : String × Nat} {items : List Expr} :
    m ∈ allMentions items ↔ ∃ e ∈ items, m ∈ e.mentions := by
  induction items with
  | nil => simp [allMentions]
  | cons e items ih => simp [allMentions, ih]

theorem mem_fieldMentions {m : String × Nat} {fields : List (String × Expr)} :
    m ∈ fieldMentions fields ↔ ∃ p ∈ fields, m ∈ p.2.mentions := by
  induction fields with
  | nil => simp [fieldMentions]
  | cons p fields ih => simp [fieldMentions, ih]

end Expr

def Symbol.mentions : (s : Symbol) → s.Value → List (String × Nat)
  | list | items | chain => Expr.allMentions
  | fields _ | entries => Expr.fieldMentions
  | row _ | operand | suffixed | atom => Expr.mentions

def Token.mention? (t : Token) : Option (String × Nat) :=
  if t.kind = .name then some (t.value, t.start.offset) else none

def namesOf (ts : List Token) : List (String × Nat) := ts.filterMap Token.mention?

theorem namesOf_append (ts us : List Token) : namesOf (ts ++ us) = namesOf ts ++ namesOf us :=
  List.filterMap_append

theorem namesOf_sublist {ts us : List Token} (h : ts.Sublist us) :
    (namesOf ts).Sublist (namesOf us) := h.filterMap _

theorem namesOf_name_cons (t : Terminal .name) (ts : List Token) :
    namesOf (t.1 :: ts) = (t.1.value, t.1.start.offset) :: namesOf ts := by
  rw [namesOf, List.filterMap_cons, Token.mention?, if_pos t.2]
  rfl

namespace Derivation

theorem mentions_sublist {s : Symbol} (d : Derivation s) :
    (s.mentions d.value).Sublist (namesOf d.tokens) := by
  induction d with
  | operand e ih | tighter e ih | unsigned e ih | bare e ih | someItems _ ih | someEntries _ ih =>
    exact ih
  | signed sign e ih =>
    have happly : (sign.apply e.value).mentions = e.value.mentions := Expr.mentions_apply ..
    change ((sign.apply e.value).mentions).Sublist _
    rw [happly]
    exact ih.trans (namesOf_sublist (List.sublist_cons_self ..))
  | left _ a op b iha ihb | right _ a op b iha ihb | single _ a op b iha ihb =>
    rw [tokens, namesOf_append]
    exact iha.append (ihb.trans (namesOf_sublist (List.sublist_cons_self ..)))
  | percent e _ ih | field e _ _ ih =>
    exact ih.trans (namesOf_sublist (List.sublist_append_left ..))
  | number | text | truth | falsehood => exact List.nil_sublist _
  | name t => exact (namesOf_name_cons t []).symm ▸ List.Sublist.refl _
  | call name open_ args close ih =>
    rw [tokens, namesOf_name_cons]
    refine .cons_cons _ (ih.trans (namesOf_sublist ?_))
    exact (List.sublist_append_left ..).trans (List.sublist_cons_self ..)
  | group open_ inner close ih =>
    have hvalue : (inSequence inner.value).mentions = Expr.allMentions inner.value :=
      Expr.mentions_inSequence _
    change ((inSequence inner.value).mentions).Sublist _
    rw [hvalue]
    refine ih.trans (namesOf_sublist ?_)
    exact (List.sublist_append_left ..).trans (List.sublist_cons_self ..)
  | record _ _ _ ih | table _ _ _ ih =>
    refine ih.trans (namesOf_sublist ?_)
    exact (List.sublist_append_left ..).trans (List.sublist_cons_self ..)
  | lastItem e ih | lastLink e ih =>
    change (Expr.allMentions [e.value]).Sublist _
    rw [Expr.allMentions_singleton]
    exact ih
  | endLink e _ ih =>
    change (Expr.allMentions [e.value]).Sublist _
    rw [Expr.allMentions_singleton]
    exact ih.trans (namesOf_sublist (List.sublist_append_left ..))
  | lastField name _ colon e ih =>
    change (Expr.fieldMentions [(name.1.value, e.value)]).Sublist _
    rw [Expr.fieldMentions_singleton]
    refine ih.trans (namesOf_sublist ?_)
    exact (List.sublist_cons_self ..).trans (List.sublist_cons_self ..)
  | consItem e _ more ihe ihm | consLink e _ more ihe ihm =>
    change (Expr.allMentions (e.value :: more.value)).Sublist _
    rw [Expr.allMentions, tokens, namesOf_append]
    exact ihe.append (ihm.trans (namesOf_sublist (List.sublist_cons_self ..)))
  | consField name _ colon e comma more ihe ihm =>
    change (Expr.fieldMentions ((name.1.value, e.value) :: more.value)).Sublist _
    have hmore := ihe.append (ihm.trans (namesOf_sublist (List.sublist_cons_self comma.1 _)))
    rw [← namesOf_append] at hmore
    rw [Expr.fieldMentions]
    refine hmore.trans (namesOf_sublist ?_)
    exact (List.sublist_cons_self ..).trans (List.sublist_cons_self ..)
  | noItems | noEntries => exact List.nil_sublist _

end Derivation

theorem BodyDerivation.mentions_sublist (d : BodyDerivation) :
    d.value.mentions.Sublist (namesOf d.tokens) := by
  cases d with
  | equation equal e => exact e.mentions_sublist.trans (namesOf_sublist (List.sublist_cons_self ..))
  | block open_ inner close =>
    rw [value, Expr.mentions_inSequence]
    refine inner.mentions_sublist.trans (namesOf_sublist ?_)
    exact (List.sublist_append_left ..).trans (List.sublist_cons_self ..)

theorem DefinitionDerivation.body_sublist (d : DefinitionDerivation) :
    d.body.tokens.Sublist d.tokens := by
  rw [tokens]
  refine .cons _ (.cons _ (List.Sublist.trans ?_ (List.sublist_append_right ..)))
  exact .cons _ (.cons _ (.cons _ (.refl _)))

theorem DefinitionsDerivation.mentions_sublist (d : DefinitionsDerivation) :
    ∀ f ∈ d.value, f.body.mentions.Sublist (namesOf d.tokens) := by
  have hbody (d : DefinitionDerivation) {ts : List Token} (h : d.tokens.Sublist ts) :
      d.value.body.mentions.Sublist (namesOf ts) :=
    d.body.mentions_sublist.trans (namesOf_sublist (d.body_sublist.trans h))
  induction d with
  | last d =>
    intro f hf
    obtain rfl := List.mem_singleton.mp hf
    exact hbody d (.refl _)
  | ended d semicolon =>
    intro f hf
    obtain rfl := List.mem_singleton.mp hf
    exact hbody d (List.sublist_append_left ..)
  | cons d semicolon more ih =>
    intro f hf
    obtain rfl | hf := List.mem_cons.mp hf
    · exact hbody d (List.sublist_append_left ..)
    · refine (ih f hf).trans (namesOf_sublist ?_)
      exact (List.sublist_cons_self ..).trans (List.sublist_append_right ..)

def CheckError.name : CheckError → String
  | unknownName n _ | unknownFunction n _ | wrongArity n _ _ _ => n

def CheckError.offset : CheckError → Nat
  | unknownName _ p | unknownFunction _ p | wrongArity _ _ _ p => p

section

variable {s : Scope} {names : Bool} {c : CheckError}

theorem both_error {a b : Except CheckError Unit} (h : (a >>= fun _ => b) = .error c) :
    a = .error c ∨ b = .error c := by
  cases a with
  | error x => exact .inl h
  | ok u => exact .inr h

theorem checkAll_error {items : List Expr} (h : checkAll s names items = .error c) :
    ∃ e ∈ items, check s names e = .error c := by
  induction items with
  | nil => cases h
  | cons e items ih =>
    rw [checkAll] at h
    obtain he | hrest := both_error h
    · exact ⟨e, List.mem_cons_self, he⟩
    · obtain ⟨e', hmem, he'⟩ := ih hrest
      exact ⟨e', List.mem_cons_of_mem e hmem, he'⟩

theorem checkFields_error {fields : List (String × Expr)}
    (h : checkFields s names fields = .error c) :
    ∃ p ∈ fields, check s names p.2 = .error c := by
  induction fields with
  | nil => cases h
  | cons p fields ih =>
    rw [checkFields] at h
    obtain he | hrest := both_error h
    · exact ⟨p, List.mem_cons_self, he⟩
    · obtain ⟨p', hmem, hp'⟩ := ih hrest
      exact ⟨p', List.mem_cons_of_mem p hmem, hp'⟩

theorem checkArgs_error {first others : Bool} {args : List Expr}
    (h : checkArgs s first others args = .error c) :
    ∃ e ∈ args, ∃ named, check s named e = .error c := by
  cases args with
  | nil => cases h
  | cons e args =>
    rw [checkArgs] at h
    obtain he | hrest := both_error h
    · exact ⟨e, List.mem_cons_self, first, he⟩
    · obtain ⟨e', hmem, he'⟩ := checkAll_error hrest
      exact ⟨e', List.mem_cons_of_mem e hmem, others, he'⟩

theorem mem_mentions_of_check {e : Expr} (h : check s names e = .error c) :
    (c.name, c.offset) ∈ e.mentions := by
  induction e generalizing names with
  | number | text | boolean => cases h
  | name n offset =>
    rw [check] at h
    split at h
    · cases h
      exact List.mem_singleton_self _
    · cases h
  | record fields ih =>
    obtain ⟨p, hp, hc⟩ := checkFields_error h
    exact Expr.mem_fieldMentions.mpr ⟨p, hp, ih p hp hc⟩
  | table items ih | chain items ih =>
    obtain ⟨e, he, hc⟩ := checkAll_error h
    exact Expr.mem_allMentions.mpr ⟨e, he, ih e he hc⟩
  | unary _ e ih | percent e ih | field e _ ih => exact ih h
  | binary op l r ihl ihr =>
    rw [check] at h
    obtain hl | hr := both_error h
    · exact List.mem_append_left _ (ihl hl)
    · exact List.mem_append_right _ (ihr hr)
  | call f args offset ih =>
    rw [check] at h
    split at h
    · cases h
      exact List.mem_cons_self
    · split at h
      · obtain ⟨e, he, _, hc⟩ := checkArgs_error h
        exact List.mem_cons_of_mem _ (Expr.mem_allMentions.mpr ⟨e, he, ih e he hc⟩)
      · cases h
        exact List.mem_cons_self

end

end FormulaShell.Formula
