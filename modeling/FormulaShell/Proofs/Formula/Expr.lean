import FormulaShell.Formula.Check

namespace FormulaShell.Formula

namespace Expr

/-- Induction over an expression, whose parts are also those in its lists. -/
@[elab_as_elim, induction_eliminator]
theorem induction {motive : Expr → Prop}
    (number : ∀ x, motive (.number x)) (text : ∀ s, motive (.text s))
    (boolean : ∀ b, motive (.boolean b)) (name : ∀ n offset, motive (.name n offset))
    (record : ∀ fields, (∀ p ∈ fields, motive p.2) → motive (.record fields))
    (table : ∀ items, (∀ e ∈ items, motive e) → motive (.table items))
    (unary : ∀ op e, motive e → motive (.unary op e))
    (percent : ∀ e, motive e → motive (.percent e))
    (binary : ∀ op l r, motive l → motive r → motive (.binary op l r))
    (field : ∀ e name, motive e → motive (.field e name))
    (call : ∀ f args offset, (∀ e ∈ args, motive e) → motive (.call f args offset))
    (chain : ∀ items, (∀ e ∈ items, motive e) → motive (.chain items)) (e : Expr) : motive e :=
  @Expr.rec motive (fun fields => ∀ p ∈ fields, motive p.2) (fun items => ∀ e ∈ items, motive e)
    (fun p => motive p.2) number text boolean name record table unary percent binary field call
    chain (by simp) (by simp_all) (by simp) (by simp_all) (fun _ _ h => h) e

mutual

def parts : Expr → List Expr
  | number x => [number x]
  | text s => [text s]
  | boolean b => [boolean b]
  | name n offset => [name n offset]
  | record fields => record fields :: fieldParts fields
  | table items => table items :: allParts items
  | unary op e => unary op e :: parts e
  | percent e => percent e :: parts e
  | binary op l r => binary op l r :: (parts l ++ parts r)
  | field e n => field e n :: parts e
  | call f args offset => call f args offset :: allParts args
  | chain items => chain items :: allParts items

def allParts : List Expr → List Expr
  | [] => []
  | e :: rest => parts e ++ allParts rest

def fieldParts : List (String × Expr) → List Expr
  | [] => []
  | (_, e) :: rest => parts e ++ fieldParts rest

end

theorem mem_parts_self (e : Expr) : e ∈ e.parts := by
  cases e <;> exact List.mem_cons_self ..

theorem mem_allParts {t : Expr} {items : List Expr} :
    t ∈ allParts items ↔ ∃ e ∈ items, t ∈ e.parts := by
  induction items with
  | nil => simp [allParts]
  | cons e items ih => simp [allParts, ih]

theorem mem_fieldParts {t : Expr} {fields : List (String × Expr)} :
    t ∈ fieldParts fields ↔ ∃ p ∈ fields, t ∈ p.2.parts := by
  induction fields with
  | nil => simp [fieldParts]
  | cons p fields ih => simp [fieldParts, ih]

theorem mem_allNames {n : String} {items : List Expr} :
    n ∈ allNames items ↔ ∃ e ∈ items, n ∈ e.names := by
  induction items with
  | nil => simp [allNames]
  | cons e items ih => simp [allNames, ih]

theorem mem_fieldNames {n : String} {fields : List (String × Expr)} :
    n ∈ fieldNames fields ↔ ∃ p ∈ fields, n ∈ p.2.names := by
  induction fields with
  | nil => simp [fieldNames]
  | cons p fields ih => simp [fieldNames, ih]

theorem mem_allCalls {f : String} {items : List Expr} :
    f ∈ allCalls items ↔ ∃ e ∈ items, f ∈ e.calls := by
  induction items with
  | nil => simp [allCalls]
  | cons e items ih => simp [allCalls, ih]

theorem mem_fieldCalls {f : String} {fields : List (String × Expr)} :
    f ∈ fieldCalls fields ↔ ∃ p ∈ fields, f ∈ p.2.calls := by
  induction fields with
  | nil => simp [fieldCalls]
  | cons p fields ih => simp [fieldCalls, ih]

end Expr

section

variable {s : Scope} {names : Bool}

theorem both_ok {a b : Except CheckError Unit} :
    (a >>= fun _ => b) = .ok () ↔ a = .ok () ∧ b = .ok () := by
  cases a with
  | error x => simp [bind, Except.bind]
  | ok u => simp [bind, Except.bind]

theorem check_name_ok {n : String} {offset : Nat} :
    check s names (.name n offset) = .ok () ↔ (names → s.isName n) := by
  cases names
  · simp [check]
  · cases h : s.isName n <;> simp [check, h]

theorem checkAll_ok {items : List Expr} :
    checkAll s names items = .ok () ↔ ∀ e ∈ items, check s names e = .ok () := by
  induction items with
  | nil => simp [checkAll]
  | cons e items ih => rw [checkAll, both_ok, ih, List.forall_mem_cons]

theorem checkFields_ok {fields : List (String × Expr)} :
    checkFields s names fields = .ok () ↔ ∀ p ∈ fields, check s names p.2 = .ok () := by
  induction fields with
  | nil => simp [checkFields]
  | cons p fields ih => rw [checkFields, both_ok, ih, List.forall_mem_cons]

theorem checkArgs_ok {first others : Bool} {e : Expr} {args : List Expr} :
    checkArgs s first others (e :: args) = .ok () ↔
      check s first e = .ok () ∧ ∀ a ∈ args, check s others a = .ok () := by
  rw [checkArgs, both_ok, checkAll_ok]

theorem check_binary_ok {op : BinaryOp} {l r : Expr} :
    check s names (.binary op l r) = .ok () ↔
      check s names l = .ok () ∧ check s names r = .ok () := by
  rw [check, both_ok]

theorem check_call_ok {f : String} {args : List Expr} {offset : Nat} :
    check s names (.call f args offset) = .ok () ↔
      ∃ arity, s.arity? f = some arity ∧ arity.admits args.length ∧
        checkArgs s names (names && !isRowScoped f) args = .ok () := by
  cases ha : s.arity? f with
  | none => simp [check, ha]
  | some arity => by_cases hn : arity.admits args.length <;> simp [check, ha, hn]

theorem check_mono {s' : Scope} (hn : ∀ n, s.isName n → s'.isName n)
    (ha : ∀ f a, s.arity? f = some a → s'.arity? f = some a) {e : Expr}
    (h : check s names e = .ok ()) : check s' names e = .ok () := by
  induction e generalizing names with
  | number | text | boolean => exact h
  | name n offset => exact check_name_ok.mpr fun hk => hn n (check_name_ok.mp h hk)
  | record fields ih => exact checkFields_ok.mpr fun p hp => ih p hp (checkFields_ok.mp h p hp)
  | table items ih | chain items ih =>
    exact checkAll_ok.mpr fun e he => ih e he (checkAll_ok.mp h e he)
  | unary _ e ih | percent e ih | field e _ ih => exact ih h
  | binary op l r ihl ihr =>
    obtain ⟨hl, hr⟩ := check_binary_ok.mp h
    exact check_binary_ok.mpr ⟨ihl hl, ihr hr⟩
  | call f args offset ih =>
    obtain ⟨arity, hf, hc, hargs⟩ := check_call_ok.mp h
    refine check_call_ok.mpr ⟨arity, ha f arity hf, hc, ?_⟩
    cases args with
    | nil => rfl
    | cons e args =>
      obtain ⟨he, hrest⟩ := checkArgs_ok.mp hargs
      refine checkArgs_ok.mpr ⟨ih e (List.mem_cons_self ..) he, fun a hm => ?_⟩
      exact ih a (List.mem_cons_of_mem e hm) (hrest a hm)

theorem arity?_of_check {e : Expr} (h : check s names e = .ok ()) :
    ∀ f ∈ e.calls, (s.arity? f).isSome := by
  induction e generalizing names with
  | number | text | boolean | name => simp [Expr.calls]
  | record fields ih =>
    intro f hf
    obtain ⟨p, hp, hc⟩ := Expr.mem_fieldCalls.mp hf
    exact ih p hp (checkFields_ok.mp h p hp) f hc
  | table items ih | chain items ih =>
    intro f hf
    obtain ⟨e, he, hc⟩ := Expr.mem_allCalls.mp hf
    exact ih e he (checkAll_ok.mp h e he) f hc
  | unary _ e ih | percent e ih | field e _ ih => exact ih h
  | binary op l r ihl ihr =>
    obtain ⟨hl, hr⟩ := check_binary_ok.mp h
    intro f hf
    obtain hf | hf := List.mem_append.mp hf
    · exact ihl hl f hf
    · exact ihr hr f hf
  | call g args offset ih =>
    obtain ⟨arity, ha, -, hargs⟩ := check_call_ok.mp h
    intro f hf
    obtain rfl | hf := List.mem_cons.mp hf
    · simp [ha]
    · obtain ⟨e, he, hc⟩ := Expr.mem_allCalls.mp hf
      cases args with
      | nil => cases he
      | cons first args =>
        obtain ⟨hfirst, hrest⟩ := checkArgs_ok.mp hargs
        obtain rfl | hm := List.mem_cons.mp he
        · exact ih e he hfirst f hc
        · exact ih e he (hrest e hm) f hc

end

end FormulaShell.Formula
