import FormulaShell.Fields

namespace FormulaShell.Fields

variable {α : Type} {f : Fields α} {m n : String} {v : α}

theorem find?_put (es : List (String × α)) :
    find? m (put n v es) = if n = m then some v else find? m es := by
  induction es with
  | nil => rfl
  | cons p es ih =>
    by_cases hp : p.1 = n
    · by_cases hm : n = m
      · simp [put, find?, hp, hm]
      · simp [put, find?, hp, hm]
    · by_cases hm : n = m
      · have hpm : p.1 ≠ m := fun h => hp (h.trans hm.symm)
        simp only [put, if_neg hp, find?, if_neg hpm, ih]
      · simp only [put, if_neg hp, find?, ih, if_neg hm]

theorem get?_insert : (f.insert n v).get? m = if n = m then some v else f.get? m :=
  find?_put f.entries

theorem get?_insert_self : (f.insert n v).get? n = some v := by rw [get?_insert, if_pos rfl]

theorem get?_insert_ne (h : n ≠ m) : (f.insert n v).get? m = f.get? m := by
  rw [get?_insert, if_neg h]

theorem contains_insert : (f.insert n v).contains m = (n == m || f.contains m) := by
  rw [contains, contains, get?_insert]
  by_cases h : n = m
  · simp [h]
  · simp [h]

theorem get?_erase_ne (h : m ≠ n) : (f.erase n).get? m = f.get? m := by
  obtain ⟨es⟩ := f
  change find? m (es.filter (·.1 != n)) = find? m es
  induction es with
  | nil => rfl
  | cons p es ih =>
    by_cases hp : p.1 = n
    · have hm : p.1 ≠ m := fun h' => h (h'.symm.trans hp)
      rw [List.filter_cons_of_neg (by simp [hp]), ih]
      simp only [find?, if_neg hm]
    · rw [List.filter_cons_of_pos (by simpa using hp)]
      simp only [find?, ih]

theorem mem_put {p : String × α} {es : List (String × α)} (h : p ∈ put n v es) :
    p = (n, v) ∨ p ∈ es := by
  induction es with
  | nil => exact .inl (List.mem_singleton.mp h)
  | cons q es ih =>
    obtain ⟨m, w⟩ := q
    rw [put] at h
    split at h
    next hm =>
      subst hm
      obtain hp | hp := List.mem_cons.mp h
      · exact .inl hp
      · exact .inr (List.mem_cons_of_mem _ hp)
    next =>
      obtain rfl | hp := List.mem_cons.mp h
      · exact .inr (List.mem_cons_self ..)
      · exact (ih hp).imp id (List.mem_cons_of_mem _)

theorem map_fst_put (es : List (String × α)) :
    (put n v es).map Prod.fst =
      if n ∈ es.map Prod.fst then es.map Prod.fst else es.map Prod.fst ++ [n] := by
  induction es with
  | nil => simp [put]
  | cons p es ih =>
    obtain ⟨m, w⟩ := p
    by_cases hm : m = n
    · simp [put, hm]
    · have hn : n ≠ m := fun h => hm h.symm
      simp only [put, if_neg hm, List.map_cons, ih, List.mem_cons, hn, false_or]
      split <;> rfl

theorem nodup_names_insert (h : f.names.Nodup) : (f.insert n v).names.Nodup := by
  change ((put n v f.entries).map Prod.fst).Nodup
  rw [map_fst_put]
  split
  · exact h
  next hn =>
    refine List.nodup_append.mpr ⟨h, List.pairwise_singleton _ n, fun a ha b hb hab => ?_⟩
    obtain rfl := List.mem_singleton.mp hb
    exact hn (hab ▸ ha)

theorem mem_of_get? (h : f.get? n = some v) : (n, v) ∈ f.entries := by
  obtain ⟨es⟩ := f
  change find? n es = some v at h
  induction es with
  | nil => cases h
  | cons q es ih =>
    obtain ⟨m, w⟩ := q
    rw [find?] at h
    split at h
    next hm =>
      cases h
      subst hm
      exact List.mem_cons_self ..
    next => exact List.mem_cons_of_mem _ (ih h)

theorem get?_eq_none (h : n ∉ f.names) : f.get? n = none := by
  rw [Option.eq_none_iff_forall_ne_some]
  exact fun v hv => h (List.mem_map_of_mem (mem_of_get? hv))

end FormulaShell.Fields
