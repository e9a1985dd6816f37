import FormulaShell.Proofs.Formula.Cursor

namespace FormulaShell.Formula

open FormulaShell.Text

variable {α β : Type} {n : Nat} {eof : Token} {list ts rest : List Token}

/-- The tokens of a text are followed by its end, which is none of them, and their numbers can be
read. -/
structure Sourced (eof : Token) (list : List Token) : Prop where
  eof : eof.kind = .eof
  inner : ∀ t ∈ list, t.kind ≠ .eof
  number : ∀ t ∈ list, t.kind = .number → (Number.read? t.value).isSome

theorem Sourced.kind_current_nil (hs : Sourced eof list) : (current eof []).kind = .eof := hs.eof

theorem Sourced.kind_current_cons (hs : Sourced eof list) {t : Token} (h : t :: rest <:+ list) :
    (current eof (t :: rest)).kind ≠ .eof := hs.inner t (h.subset List.mem_cons_self)

def place (list rest : List Token) : Nat := list.length - rest.length

/-- The cursor comes to where the rest begins that the parser leaves, or both end with the same
fault. -/
inductive Agrees (list : List Token) :
    Except Halt (α × Nat) → Except ParseError (Parsed Token α n) → Prop where
  | fault {e} (h : e.fault.isInternal = false) : Agrees list (.error (.fault e h)) (.error e)
  | result {r} : r.rest <:+ list → Agrees list (.ok (r.value, place list r.rest)) (.ok r)

theorem place_succ {t : Token} (h : t :: rest <:+ list) :
    place list (t :: rest) + 1 = place list rest := by
  have := h.length_le
  rw [List.length_cons] at this
  rw [place, place, List.length_cons]
  omega

theorem place_lt (list ts : List Token) (eof : Token) :
    place list ts < (list ++ [eof]).length := by
  rw [place, List.length_append, List.length_singleton]
  omega

theorem length_lt_rounds (eof : Token) (h : ts <:+ list) : ts.length < (list ++ [eof]).length := by
  rw [List.length_append, List.length_singleton]
  exact Nat.lt_succ_of_le h.length_le

theorem rest_lt_rounds {t : Token} {rounds : Nat} (hlt : (t :: rest).length < n)
    (hr : n < rounds + 1) : rest.length < rounds :=
  Nat.lt_of_lt_of_le (Nat.lt_of_succ_lt hlt) (Nat.le_of_lt_succ hr)

theorem getElem?_place (h : ts <:+ list) (eof : Token) :
    (list ++ [eof])[place list ts]? = some (current eof ts) := by
  obtain ⟨before, rfl⟩ := h
  have hplace : place (before ++ ts) ts = before.length := by
    rw [place, List.length_append, Nat.add_sub_cancel]
  rw [hplace, List.append_assoc, List.getElem?_append_right (Nat.le_refl _), Nat.sub_self]
  cases ts <;> rfl

section

variable {i j : Nat} {w : Walk α} {a : α} {f : α → Walk β}
  {x : Except ParseError (Parsed Token α n)}

theorem Walk.bind_ok (h : w i = .ok (a, j)) : (w >>= f) i = f a j := by
  change (w i >>= fun p => f p.1 p.2) = f a j
  rw [h]
  rfl

theorem Walk.bind_error {e : Halt} (h : w i = .error e) : (w >>= f) i = .error e := by
  change (w i >>= fun p => f p.1 p.2) = .error e
  rw [h]
  rfl

theorem Agrees.suffix (h : Agrees list (w i) x) {r : Parsed Token α n} (hx : x = .ok r) :
    r.rest <:+ list := by
  subst hx
  generalize w i = y at h
  cases h with
  | result h => exact h

theorem Agrees.bind_ok (h : Agrees list (w i) x) {r : Parsed Token α n} (hx : x = .ok r) :
    (w >>= f) i = f r.value (place list r.rest) := by
  refine Walk.bind_ok ?_
  subst hx
  generalize w i = y at h ⊢
  cases h with
  | result => rfl

theorem Agrees.bind_error {m : Nat} (h : Agrees list (w i) x) {e : ParseError} (hx : x = .error e) :
    Agrees list ((w >>= f) i) (.error e : Except ParseError (Parsed Token β m)) := by
  subst hx
  generalize hw : w i = y at h
  cases h with
  | fault he =>
    rw [Walk.bind_error hw]
    exact .fault he

theorem Agrees.keep {y : Except Halt (α × Nat)} {m : Nat} (h : Agrees list y x)
    {r : Parsed Token α n} (hx : x = .ok r) {q : Parsed Token α m} (hv : q.value = r.value)
    (hq : q.rest = r.rest) :
    Agrees list y (.ok q : Except ParseError (Parsed Token α m)) := by
  subst hx
  cases h with
  | result h =>
    rw [← hv, ← hq]
    exact .result (hq ▸ h)

theorem Agrees.keep_error {y : Except Halt (α × Nat)} {m : Nat} (h : Agrees list y x)
    {e : ParseError} (hx : x = .error e) :
    Agrees list y (.error e : Except ParseError (Parsed Token α m)) := by
  subst hx
  cases h with
  | fault he => exact .fault he

theorem Agrees.returns {m : Nat} (h : Agrees list (w i) x) {r : Parsed Token α n}
    (hx : x = .ok r) {g : α → β} {q : Parsed Token β m} (hv : q.value = g r.value)
    (hq : q.rest = r.rest) :
    Agrees list ((w >>= fun a => pure (g a)) i) (.ok q : Except ParseError (Parsed Token β m)) := by
  rw [h.bind_ok hx, ← hv, ← hq]
  exact .result (hq ▸ h.suffix hx)

theorem agrees_pure {r : Parsed Token α n} (ha : r.value = a) (hi : place list r.rest = i)
    (h : r.rest <:+ list) : Agrees list ((pure a : Walk α) i) (.ok r) := by
  subst ha hi
  exact .result h

theorem agrees_fail (t : Token) {fault : ParseFault} (h : fault.isInternal = false) :
    Agrees list (Walk.fail (α := α) t fault i)
      (failAt t fault : Except ParseError (Parsed Token α n)) := by
  rw [Walk.fail, dif_pos h]
  exact .fault h

end

section

variable {t : Token} {f : Token → Walk β} {g : Bool → Walk β} {kind : TokenKind}

theorem peek_bind (h : ts <:+ list) :
    (Walk.peek (list ++ [eof]) >>= f) (place list ts) = f (current eof ts) (place list ts) := by
  refine Walk.bind_ok ?_
  rw [Walk.peek, getElem?_place h]

theorem peek_cons (h : t :: rest <:+ list) :
    (Walk.peek (list ++ [eof]) >>= f) (place list (t :: rest)) = f t (place list (t :: rest)) :=
  peek_bind h

theorem advance_place (h : t :: rest <:+ list) :
    Walk.advance (list ++ [eof]) (place list (t :: rest)) = .ok ((), place list rest) := by
  rw [Walk.advance, place_succ h, if_pos (place_lt list rest eof)]

variable (hs : Sourced eof list)
include hs

theorem popAny_bind (h : t :: rest <:+ list) :
    (Walk.popAny (list ++ [eof]) >>= f) (place list (t :: rest)) = f t (place list rest) := by
  refine Walk.bind_ok ?_
  rw [Walk.popAny, peek_bind h, if_neg (hs.kind_current_cons h), Walk.bind_ok (advance_place h)]
  rfl

theorem accept_bind_of_eq (h : t :: rest <:+ list) (ht : t.kind = kind) :
    (Walk.accept (list ++ [eof]) kind >>= g) (place list (t :: rest)) =
      g true (place list rest) := by
  refine Walk.bind_ok ?_
  rw [Walk.accept, peek_bind h, if_pos (show (current eof (t :: rest)).kind = kind from ht),
    popAny_bind hs h]
  rfl

omit hs in
theorem accept_bind_of_ne (h : ts <:+ list) (ht : (current eof ts).kind ≠ kind) :
    (Walk.accept (list ++ [eof]) kind >>= g) (place list ts) = g false (place list ts) := by
  refine Walk.bind_ok ?_
  rw [Walk.accept, peek_bind h, if_neg ht]
  rfl

theorem accept_bind_nil (h : [] <:+ list) (hk : kind ≠ .eof) :
    (Walk.accept (list ++ [eof]) kind >>= g) (place list []) = g false (place list []) :=
  accept_bind_of_ne h fun heof => hk (heof.symm.trans hs.kind_current_nil)

theorem accept_bind_of_expect (h : ts <:+ list) {r : Parsed Token Token ts.length}
    (hr : expect eof kind ts = .ok r) :
    (Walk.accept (list ++ [eof]) kind >>= g) (place list ts) = g true (place list r.rest) := by
  cases ts with
  | nil => cases hr
  | cons t rest =>
    rw [expect] at hr
    split at hr
    next ht =>
      cases hr
      exact accept_bind_of_eq hs h ht
    next => cases hr

theorem accept_bind_of_expect_error (h : ts <:+ list) (hk : kind ≠ .eof) {e : ParseError}
    (he : expect eof kind ts = .error e) :
    (Walk.accept (list ++ [eof]) kind >>= g) (place list ts) = g false (place list ts) := by
  cases ts with
  | nil => exact accept_bind_nil hs h hk
  | cons t rest =>
    rw [expect] at he
    split at he
    next => cases he
    next ht => exact accept_bind_of_ne h ht

theorem agrees_pop (kind : TokenKind) (hk : kind ≠ .eof) (h : ts <:+ list) :
    Agrees list (Walk.pop (list ++ [eof]) kind (place list ts)) (expect eof kind ts) := by
  rw [Walk.pop, peek_bind h]
  cases ts with
  | nil =>
    have heof : (current eof []).kind ≠ kind := fun heof => hk (heof.symm.trans hs.kind_current_nil)
    rw [if_neg heof, expect]
    exact agrees_fail eof rfl
  | cons t rest =>
    rw [expect]
    by_cases ht : t.kind = kind
    · rw [if_pos ht, if_pos (show (current eof (t :: rest)).kind = kind from ht),
        Walk.bind_ok (advance_place h)]
      exact Agrees.result (r := .used t t rest) ((List.suffix_cons t rest).trans h)
    · rw [if_neg ht, if_neg (show ¬ (current eof (t :: rest)).kind = kind from ht)]
      exact agrees_fail t rfl

theorem agrees_following_nil {item : α} {more : Walk (List α)} (kind : TokenKind) (hk : kind ≠ .eof)
    (h : [] <:+ list) :
    Agrees list (Walk.following (list ++ [eof]) item more kind (place list []))
      (failAt eof (.expected kind eof.kind eof.value) :
        Except ParseError (Parsed Token (List α) n)) := by
  rw [Walk.following, accept_bind_nil hs h (by decide), if_neg Bool.false_ne_true]
  exact (agrees_pop hs kind hk h).bind_error rfl

/-- The parser's own lists differ in their items alone, so that `y` stands for any of them. -/
theorem agrees_following_cons {item : α} {more : Walk (List α)} (kind : TokenKind)
    (hk : kind ≠ .eof) (h : t :: rest <:+ list)
    {x : Except ParseError (Parsed Token (List α) rest.length)}
    (hmore : Agrees list (more (place list rest)) x) (hlt : (t :: rest).length < n)
    {y : Except ParseError (Parsed Token (List α) n)}
    (hcomma : t.kind = .comma → y = x.map fun r => (r.map (item :: ·)).after hlt)
    (hclose : t.kind ≠ .comma →
      y = (expect eof kind (t :: rest)).map fun r => (r.map fun _ => [item]).under hlt) :
    Agrees list (Walk.following (list ++ [eof]) item more kind (place list (t :: rest))) y := by
  rw [Walk.following]
  by_cases ht : t.kind = .comma
  · rw [accept_bind_of_eq hs h ht, if_pos rfl, hcomma ht]
    cases hx : x with
    | error e => exact hmore.bind_error hx
    | ok others => exact hmore.returns hx rfl rfl
  · have hpop := agrees_pop hs kind hk h
    rw [accept_bind_of_ne h ht, if_neg Bool.false_ne_true, hclose ht]
    cases hx : expect eof kind (t :: rest) with
    | error e => exact hpop.bind_error hx
    | ok closing => exact hpop.returns hx rfl rfl

end

def Tracks (list : List Token) (w : Walk α) (p : Parser α) : Prop :=
  ∀ ⦃ts⦄, ts <:+ list → Agrees list (w (place list ts)) (p ts)

theorem suffix_tail {t : Token} (h : t :: rest <:+ list) : rest <:+ list :=
  (List.suffix_cons t rest).trans h

/-- Both end with the same fault, or with the same result while the cursor is at a token. -/
inductive EndsAlike (tokens : List Token) :
    Except Halt (α × Nat) → Except ParseError α → Prop where
  | fault {e} (h : e.fault.isInternal = false) : EndsAlike tokens (.error (.fault e h)) (.error e)
  | result {a i} : i < tokens.length → EndsAlike tokens (.ok (a, i)) (.ok a)

theorem EndsAlike.map {tokens : List Token} {w : Walk α} {i : Nat} {x : Except ParseError α}
    (h : EndsAlike tokens (w i) x) (g : α → β) :
    EndsAlike tokens ((w >>= fun a => pure (g a)) i) (x.map g) := by
  generalize hw : w i = y at h
  cases h with
  | fault he =>
    rw [Walk.bind_error hw]
    exact .fault he
  | result hi =>
    rw [Walk.bind_ok hw]
    exact .result hi

theorem Agrees.endsAlike_error {w : Walk α} {i : Nat} {f : α → Walk β}
    {x : Except ParseError (Parsed Token α n)} (h : Agrees list (w i) x) {e : ParseError}
    (hx : x = .error e) : EndsAlike (list ++ [eof]) ((w >>= f) i) (.error e) := by
  subst hx
  generalize hw : w i = y at h
  cases h with
  | fault he =>
    rw [Walk.bind_error hw]
    exact .fault he

end FormulaShell.Formula
