import FormulaShell.Proofs.Formula.Quiet
import Mathlib.Data.List.Induction

namespace FormulaShell.Formula

variable {σ : Type}

/-- The second answer counts only if the first is true. -/
def both (first second : Except String Bool) : Except String Bool :=
  match first with
  | .ok true => second
  | answer => answer

def conjunction (answers : List (Except String Bool)) : Except String Bool :=
  answers.foldr both (.ok true)

def isTrue : Except String Bool → Bool
  | .ok b => b
  | .error _ => false

theorem isTrue_iff {answer : Except String Bool} : isTrue answer ↔ answer = .ok true := by
  rcases answer with m | _ | _ <;> simp [isTrue]

theorem isTrue_both (first second : Except String Bool) :
    isTrue (both first second) = (isTrue first && isTrue second) := by
  rcases first with m | _ | _ <;> rfl

theorem isTrue_conjunction (answers : List (Except String Bool)) :
    isTrue (conjunction answers) = answers.all isTrue := by
  induction answers with
  | nil => rfl
  | cons answer rest ih => exact (isTrue_both _ _).trans (congrArg (isTrue answer && ·) ih)

theorem exists_both_eq_ok {first second : Except String Bool} :
    (∃ b, both first second = .ok b) ↔
      (∃ b, first = .ok b) ∧ (isTrue first → ∃ b, second = .ok b) := by
  rcases first with m | _ | _ <;> simp [both, isTrue]

theorem conjunction_append (answers answers' : List (Except String Bool)) :
    conjunction (answers ++ answers') = both (conjunction answers) (conjunction answers') := by
  induction answers with
  | nil => rfl
  | cons first rest ih =>
    refine (congrArg (both first) ih).trans ?_
    rcases first with m | _ | _ <;> rfl

/-- There are answers for all rows, and the rows with the answer true are these. -/
structure Selects (answer : Record → Except String Bool) (rows t : Table) : Prop where
  answered : ∀ row ∈ rows, ∃ b, answer row = .ok b
  eq_filter : t = rows.filter fun row => isTrue (answer row)

theorem selects_both_iff {first second : Record → Except String Bool} {rows t : Table} :
    Selects (fun row => both (first row) (second row)) rows t ↔
      ∃ u, Selects first rows u ∧ Selects second u t := by
  constructor
  · rintro ⟨hanswered, rfl⟩
    simp only [exists_both_eq_ok] at hanswered
    refine ⟨_, ⟨fun row hrow => (hanswered row hrow).1, rfl⟩, fun row hrow => ?_, ?_⟩
    · obtain ⟨hrow, htrue⟩ := List.mem_filter.mp hrow
      exact (hanswered row hrow).2 htrue
    · simp only [isTrue_both, List.filter_filter, Bool.and_comm]
  · rintro ⟨u, ⟨hfirst, rfl⟩, hsecond, rfl⟩
    refine ⟨fun row hrow => ?_, ?_⟩
    · rw [exists_both_eq_ok]
      exact ⟨hfirst row hrow, fun htrue => hsecond row (List.mem_filter.mpr ⟨hrow, htrue⟩)⟩
    · simp only [isTrue_both, List.filter_filter, Bool.and_comm]

theorem selects_cons_iff {answer : Record → Except String Bool} {row : Record} {rows t : Table} :
    Selects answer (row :: rows) t ↔
      ∃ u, Selects answer rows u ∧
        (answer row = .ok true ∧ t = row :: u ∨ answer row = .ok false ∧ t = u) := by
  constructor
  · rintro ⟨hanswered, rfl⟩
    obtain ⟨b, hb⟩ := hanswered row (List.mem_cons_self ..)
    refine ⟨_, ⟨fun r hr => hanswered r (List.mem_cons_of_mem row hr), rfl⟩, ?_⟩
    cases b <;> simp [hb, isTrue]
  · rintro ⟨u, ⟨hanswered, rfl⟩, ⟨hb, rfl⟩ | ⟨hb, rfl⟩⟩
    · exact ⟨List.forall_mem_cons.mpr ⟨⟨true, hb⟩, hanswered⟩, by simp [hb, isTrue]⟩
    · exact ⟨List.forall_mem_cons.mpr ⟨⟨false, hb⟩, hanswered⟩, by simp [hb, isTrue]⟩

variable {env : Environment σ} {enter : Enter σ}

theorem exists_yields_filterRows {test : Record → Eval σ (Except String Bool)}
    {answer : Record → Except String Bool} (h : ∀ row, Yields (test row) (answer row))
    (kept rows : Table) :
    ∃ r, Yields (filterRows test kept rows) r ∧
      ∀ t, r = .ok t ↔ ∃ u, Selects answer rows u ∧ t = kept.reverse ++ u := by
  induction rows generalizing kept with
  | nil =>
    refine ⟨.ok kept.reverse, yields_pure _, fun t => ?_⟩
    constructor
    · rintro ⟨⟩
      exact ⟨[], ⟨by simp, rfl⟩, by simp⟩
    · rintro ⟨u, ⟨-, rfl⟩, rfl⟩
      simp
  | cons row rows ih =>
    rw [filterRows]
    match hrow : answer row with
    | .error m =>
      refine ⟨.error m, (hrow ▸ h row).bind (yields_pure _), fun t => ?_⟩
      simp [selects_cons_iff, hrow]
    | .ok true =>
      obtain ⟨r, hr, hiff⟩ := ih (row :: kept)
      refine ⟨r, (hrow ▸ h row).bind hr, fun t => (hiff t).trans ?_⟩
      simp only [selects_cons_iff, List.reverse_cons, List.append_assoc, List.singleton_append]
      constructor
      · rintro ⟨u, hu, rfl⟩
        exact ⟨row :: u, ⟨u, hu, .inl ⟨hrow, rfl⟩⟩, rfl⟩
      · rintro ⟨_, ⟨u, hu, ⟨-, rfl⟩ | ⟨hfalse, -⟩⟩, rfl⟩
        · exact ⟨u, hu, rfl⟩
        · rw [hrow] at hfalse
          cases hfalse
    | .ok false =>
      obtain ⟨r, hr, hiff⟩ := ih kept
      refine ⟨r, (hrow ▸ h row).bind hr, fun t => ?_⟩
      simp [hiff, selects_cons_iff, hrow]

theorem yields_evalConditions {frames : Frames} {value : Expr → Value}
    (h : ∀ e, Yields (eval env enter frames e) (value e)) (conditions : List Expr) :
    Yields (evalConditions env enter frames conditions)
      (conjunction (conditions.map fun e => truth (value e))) := by
  induction conditions with
  | nil => exact yields_pure _
  | cons e rest ih =>
    rw [evalConditions]
    refine (h e).bind ?_
    rw [List.map_cons, conjunction, List.foldr_cons]
    match truth (value e) with
    | .error m => exact yields_pure _
    | .ok true => exact ih
    | .ok false => exact yields_pure _

theorem rows_eq_ok_iff {function : String} {v : Value} {given : Table} :
    rows function v = .ok given ↔ v = .table given ∨ v = .blank ∧ given = [] := by
  cases v <;> simp [rows, eq_comm]

def passes (value : Frames → Expr → Value) (frames : Frames) (conditions : List Expr)
    (row : Record) : Except String Bool :=
  conjunction (conditions.map fun e => truth (value (rowFrame row :: frames) e))

theorem passes_append (value : Frames → Expr → Value) (frames : Frames) (xs ys : List Expr) :
    passes value frames (xs ++ ys) =
      fun row => both (passes value frames xs row) (passes value frames ys row) := by
  funext row
  rw [passes, List.map_append, conjunction_append]
  rfl

/-- Filtering by one condition after another, the first of them innermost. -/
def filterInTurn (t : Expr) (conditions : List (Expr × Nat)) : Expr :=
  conditions.foldl (fun t c => .call "Filter" [t, c.1] c.2) t

theorem filterInTurn_concat (t : Expr) (conditions : List (Expr × Nat)) (c : Expr × Nat) :
    filterInTurn t (conditions ++ [c]) = .call "Filter" [filterInTurn t conditions, c.1] c.2 := by
  rw [filterInTurn, List.foldl_append]
  rfl

section

variable [Nonempty σ] (hquiet : env.Quiet) (hname : env.functions.get? "Filter" = none)
  {value : Frames → Expr → Value}
  (hvalue : ∀ frames e, Yields (eval env enter frames e) (value frames e))
include hquiet hname hvalue

theorem exists_value_filter (frames : Frames) (t : Expr) {conditions : List Expr}
    (hne : conditions ≠ []) (offset : Nat) :
    ∃ r : Except String Table,
      value frames (.call "Filter" (t :: conditions) offset) = valueOf (r.map .table) ∧
      ∀ T, r = .ok T ↔ ∃ given, rows "Filter" (value frames t) = .ok given ∧
        Selects (passes value frames conditions) given T := by
  have hadmits : Builtin.filter.arity.admits (t :: conditions).length := by
    have := List.length_pos_iff.mpr hne
    simp [Builtin.arity, Arity.admits]
    omega
  have hcall := fun v hv => (hvalue frames _).eq
    (hquiet.yields_call (b := .filter) (v := v) hname hadmits hv offset)
  cases hrows : rows "Filter" (value frames t) with
  | error m =>
    refine ⟨.error m, hcall _ ((hvalue frames t).bind ?_), by simp⟩
    rw [hrows]
    exact yields_pure _
  | ok given =>
    have hanswer (row : Record) :
        Yields (evalConditions env enter (rowFrame row :: frames) conditions)
          (passes value frames conditions row) :=
      yields_evalConditions (hvalue (rowFrame row :: frames)) conditions
    obtain ⟨r, hr, hiff⟩ := exists_yields_filterRows hanswer [] given
    refine ⟨r, hcall _ ((hvalue frames t).bind ?_), fun T => ?_⟩
    · rw [hrows]
      exact hr.bind (yields_pure _)
    · simpa using hiff T

theorem value_filter_eq_table_iff (frames : Frames) (t : Expr) {conditions : List Expr}
    (hne : conditions ≠ []) (offset : Nat) (T : Table) :
    value frames (.call "Filter" (t :: conditions) offset) = .table T ↔
      ∃ given, rows "Filter" (value frames t) = .ok given ∧
        Selects (passes value frames conditions) given T := by
  obtain ⟨r, hr, hiff⟩ := exists_value_filter hquiet hname hvalue frames t hne offset
  rw [hr, ← hiff T]
  cases r with
  | error m => simp [Except.map, valueOf]
  | ok u => simp [Except.map, valueOf]

theorem rows_value_filter_iff {frames : Frames} {t : Expr} {conditions : List Expr}
    (hne : conditions ≠ []) {offset : Nat} {T : Table} :
    rows "Filter" (value frames (.call "Filter" (t :: conditions) offset)) = .ok T ↔
      value frames (.call "Filter" (t :: conditions) offset) = .table T := by
  obtain ⟨r, hr, -⟩ := exists_value_filter hquiet hname hvalue frames t hne offset
  rw [hr]
  cases r with
  | error m => simp [Except.map, valueOf, rows]
  | ok u => simp [Except.map, valueOf, rows]

theorem rows_value_filterInTurn_iff {frames : Frames} {t : Expr} {conditions : List (Expr × Nat)}
    {T : Table} :
    rows "Filter" (value frames (filterInTurn t conditions)) = .ok T ↔
      ∃ given, rows "Filter" (value frames t) = .ok given ∧
        Selects (passes value frames (conditions.map Prod.fst)) given T := by
  -- The last condition is that of the outermost call.
  induction conditions using List.reverseRecOn generalizing T with
  | nil =>
    have hall (given : Table) : Selects (passes value frames []) given T ↔ T = given := by
      constructor
      · rintro ⟨-, rfl⟩
        exact List.filter_eq_self.mpr fun _ _ => rfl
      · rintro rfl
        exact ⟨fun _ _ => ⟨true, rfl⟩, (List.filter_eq_self.mpr fun _ _ => rfl).symm⟩
    simp [filterInTurn, hall]
  | append_singleton conditions c ih =>
    rw [filterInTurn_concat, rows_value_filter_iff hquiet hname hvalue (by simp),
      value_filter_eq_table_iff hquiet hname hvalue _ _ (by simp), List.map_append]
    simp only [ih, passes_append, selects_both_iff]
    constructor
    · rintro ⟨u, ⟨given, hgiven, hu⟩, hT⟩
      exact ⟨given, hgiven, u, hu, hT⟩
    · rintro ⟨given, hgiven, u, hu, hT⟩
      exact ⟨u, ⟨given, hgiven, hu⟩, hT⟩

end

/-- Filtering by several conditions makes a table if filtering by one after another does, and the
same one: the rows for which all conditions convert to true, in order and as often as they occur. -/
theorem filter_eq_filterInTurn [Nonempty σ] (hquiet : env.Quiet)
    (hname : env.functions.get? "Filter" = none) (depth : Nat) (frames : Frames) (t : Expr)
    {conditions : List (Expr × Nat)} (hne : conditions ≠ []) (offset : Nat) :
    let several := evalAt env depth frames (.call "Filter" (t :: conditions.map Prod.fst) offset)
    (∀ T, Yields several (.table T) ↔
      Yields (evalAt env depth frames (filterInTurn t conditions)) (.table T)) ∧
    ∀ T, Yields several (.table T) →
      ∃ given, (Yields (evalAt env depth frames t) (.table given) ∨
          Yields (evalAt env depth frames t) .blank ∧ given = []) ∧
        ∃ keep : Record → Bool, T = given.filter keep ∧
          ∀ row, keep row ↔ ∀ c ∈ conditions,
            ∃ v, Yields (evalAt env depth (rowFrame row :: frames) c.1) v ∧ truth v = .ok true := by
  intro several
  simp only [several, evalAt_eq]
  choose value hvalue using hquiet.exists_yields depth
  have hyields (frames : Frames) (e : Expr) (v : Value) :
      Yields (eval env (env.enter depth) frames e) v ↔ value frames e = v :=
    ⟨(hvalue frames e).eq, fun h => h ▸ hvalue frames e⟩
  have hne' : conditions.map Prod.fst ≠ [] := by simpa using hne
  have hseveral := value_filter_eq_table_iff hquiet hname hvalue frames t hne' offset
  simp only [hyields]
  refine ⟨fun T => ?_, fun T hT => ?_⟩
  · obtain ⟨init, c, rfl⟩ := conditions.eq_nil_or_concat.resolve_left hne
    rw [hseveral, ← rows_value_filterInTurn_iff hquiet hname hvalue, List.concat_eq_append,
      filterInTurn_concat, rows_value_filter_iff hquiet hname hvalue (by simp)]
  · obtain ⟨given, hgiven, hselects⟩ := (hseveral T).mp hT
    refine ⟨given, rows_eq_ok_iff.mp hgiven, _, hselects.eq_filter, fun row => ?_⟩
    simp [passes, isTrue_conjunction, isTrue_iff]

def checkedOrder : Record := ⟨[("open", .boolean true), ("checked", .text "true")]⟩

def orders : Table :=
  [checkedOrder, ⟨[("open", .blank), ("checked", .text "no")]⟩, checkedOrder]

def orderDesk : Environment Unit :=
  ⟨⟨[("orders", .table orders)]⟩, .empty, .empty, .empty, .never, .standard⟩

theorem filter_eq_filterInTurn_orders :
    let t := Expr.name "orders" 7
    let conditions := [(Expr.name "open" 15, 0), (Expr.name "checked" 21, 0)]
    conditions ≠ [] ∧
      Yields (evalAt orderDesk maxCallDepth [] (.call "Filter" (t :: conditions.map Prod.fst) 0))
        (.table [checkedOrder, checkedOrder]) ∧
      Yields (evalAt orderDesk maxCallDepth [] (filterInTurn t conditions))
        (.table [checkedOrder, checkedOrder]) := by
  intro t conditions
  have hquiet : orderDesk.Quiet := ⟨rfl, rfl⟩
  have hne : conditions ≠ [] := List.cons_ne_nil _ _
  have hseveral : Yields
      (evalAt orderDesk maxCallDepth [] (.call "Filter" (t :: conditions.map Prod.fst) 0))
      (.table [checkedOrder, checkedOrder]) := hquiet.yields_of_run (p := ⟨0, ()⟩) rfl
  have h := filter_eq_filterInTurn hquiet rfl maxCallDepth [] t hne 0
  exact ⟨hne, hseveral, (h.1 _).mp hseveral⟩

end FormulaShell.Formula
