namespace GoAtlas

abbrev Dict (α β : Type) := List (α × β)

namespace Dict

variable {α β : Type} [BEq α]

/-- Sets the value of a key, which keeps its place if it is there already. -/
def put (key : α) (value : β) : Dict α β → Dict α β
  | [] => [(key, value)]
  | (k, v) :: d => if key == k then (key, value) :: d else (k, v) :: put key value d

/-- Adds a key unless it is there already. -/
def addNew (key : α) (value : β) (d : Dict α β) : Dict α β :=
  if (d.lookup key).isSome then d else d ++ [(key, value)]

/-- Changes the value of a key that is there. -/
def adjust (key : α) (f : β → β) : Dict α β → Dict α β
  | [] => []
  | (k, v) :: d => if key == k then (k, f v) :: d else (k, v) :: adjust key f d

/-- Adds a value to the list a key stands for. -/
def gather (key : α) (value : β) (d : Dict α (List β)) : Dict α (List β) :=
  if (d.lookup key).isSome then d.adjust key (· ++ [value]) else d ++ [(key, [value])]

theorem lookup_put [LawfulBEq α] (key other : α) (value : β) (d : Dict α β) :
    (d.put key value).lookup other = if other == key then some value else d.lookup other := by
  induction d with
  | nil => cases h : other == key <;> simp [put, List.lookup_cons, h]
  | cons e d ih =>
    obtain ⟨k, v⟩ := e
    by_cases hk : key = k
    · subst hk
      cases h : other == key <;> simp [put, List.lookup_cons, h]
    · cases h : other == k with
      | false => simp [put, List.lookup_cons, hk, h, ih]
      | true =>
        obtain rfl : other = k := by simpa using h
        simp [put, hk, Ne.symm hk]

/-- What is found once a value is set is that value, or was found before. -/
theorem cases_of_lookup_put [LawfulBEq α] {key other : α} {value found : β} {d : Dict α β}
    (h : (d.put key value).lookup other = some found) :
    other = key ∧ found = value ∨ d.lookup other = some found := by
  rw [lookup_put] at h
  split at h
  · next he => exact .inl ⟨beq_iff_eq.mp he, (Option.some.inj h).symm⟩
  · exact .inr h

theorem lookup_adjust [LawfulBEq α] (key other : α) (f : β → β) (d : Dict α β) :
    (d.adjust key f).lookup other =
      if other == key then (d.lookup other).map f else d.lookup other := by
  induction d with
  | nil => simp [adjust]
  | cons e d ih =>
    obtain ⟨k, v⟩ := e
    by_cases hk : key = k
    · subst hk
      cases h : other == key <;> simp [adjust, List.lookup_cons, h]
    · cases h : other == k with
      | false => simp [adjust, List.lookup_cons, hk, h, ih]
      | true =>
        obtain rfl : other = k := by simpa using h
        simp [adjust, hk, Ne.symm hk]

theorem lookup_addNew [LawfulBEq α] (key other : α) (value : β) (d : Dict α β) :
    (d.addNew key value).lookup other =
      (d.lookup other).or (if other == key then some value else none) := by
  unfold addNew
  split
  · next h =>
    by_cases hk : other = key
    · obtain ⟨v, hv⟩ := Option.isSome_iff_exists.mp h
      rw [hk, hv, Option.some_or]
    · simp [hk]
  · rw [List.lookup_append]
    cases hk : other == key <;> simp [List.lookup_cons, hk]

theorem mem_of_lookup [LawfulBEq α] {key : α} {value : β} {d : Dict α β}
    (h : d.lookup key = some value) : (key, value) ∈ d := by
  obtain ⟨before, after, rfl, _⟩ := List.lookup_eq_some_iff.mp h
  exact List.mem_append_right _ List.mem_cons_self

theorem mem_put {key : α} {value : β} {d : Dict α β} {e : α × β} (h : e ∈ d.put key value) :
    e = (key, value) ∨ e ∈ d := by
  induction d with
  | nil => exact .inl (List.mem_singleton.mp h)
  | cons first d ih =>
    rw [put] at h
    split at h
    · exact (List.mem_cons.mp h).imp_right (List.mem_cons_of_mem _)
    · rcases List.mem_cons.mp h with rfl | h
      · exact .inr List.mem_cons_self
      · exact (ih h).imp_right (List.mem_cons_of_mem _)

theorem put_of_fresh [LawfulBEq α] {key : α} {d : Dict α β} (h : ∀ e ∈ d, e.1 ≠ key) (value : β) :
    d.put key value = d ++ [(key, value)] := by
  induction d with
  | nil => rfl
  | cons e d ih =>
    have hne : (key == e.1) = false := by simpa using (h e List.mem_cons_self).symm
    rw [put, if_neg (by simp [hne]), ih fun f hf => h f (List.mem_cons_of_mem e hf),
      List.cons_append]

theorem mem_addNew {key : α} {value : β} {d : Dict α β} {e : α × β} (h : e ∈ d.addNew key value) :
    e = (key, value) ∨ e ∈ d := by
  rw [addNew] at h
  split at h
  · exact .inr h
  · exact (List.mem_append.mp h).symm.imp_left List.mem_singleton.mp

theorem mem_adjust {key : α} {f : β → β} {d : Dict α β} {e : α × β} (h : e ∈ d.adjust key f) :
    e ∈ d ∨ ∃ value, (e.1, value) ∈ d ∧ e.2 = f value := by
  induction d with
  | nil => cases h
  | cons first d ih =>
    rw [adjust] at h
    split at h
    · rcases List.mem_cons.mp h with rfl | h
      · exact .inr ⟨first.2, List.mem_cons_self, rfl⟩
      · exact .inl (List.mem_cons_of_mem _ h)
    · rcases List.mem_cons.mp h with rfl | h
      · exact .inl List.mem_cons_self
      · refine (ih h).imp (List.mem_cons_of_mem _) fun ⟨value, hv, he⟩ => ?_
        exact ⟨value, List.mem_cons_of_mem _ hv, he⟩

theorem prefix_addNew (key : α) (value : β) (d : Dict α β) : d <+: d.addNew key value := by
  unfold addNew
  split
  · exact List.prefix_refl d
  · exact List.prefix_append d _

theorem keys_adjust (key : α) (f : β → β) (d : Dict α β) :
    (d.adjust key f).map (·.1) = d.map (·.1) := by
  induction d with
  | nil => rfl
  | cons e d ih =>
    rw [adjust]
    split
    · rfl
    · rw [List.map_cons, List.map_cons, ih]

theorem keys_gather (key : α) (value : β) (d : Dict α (List β)) :
    (d.gather key value).map (·.1) =
      if (d.lookup key).isSome then d.map (·.1) else d.map (·.1) ++ [key] := by
  unfold gather
  split
  · exact keys_adjust key _ d
  · exact List.map_append

theorem prefix_keys_gather (key : α) (value : β) (d : Dict α (List β)) :
    d.map (·.1) <+: (d.gather key value).map (·.1) := by
  rw [keys_gather]
  split
  · exact List.prefix_refl _
  · exact List.prefix_append _ _

theorem lookup_gather [LawfulBEq α] (key other : α) (value : β) (d : Dict α (List β)) :
    (d.gather key value).lookup other =
      if other == key then some ((d.lookup other).getD [] ++ [value]) else d.lookup other := by
  unfold gather
  split
  · next hold =>
    rw [lookup_adjust]
    split
    · next he =>
      obtain ⟨values, hvalues⟩ := Option.isSome_iff_exists.mp hold
      rw [beq_iff_eq.mp he, hvalues]
      rfl
    · rfl
  · next hnew =>
    rw [List.lookup_append]
    cases he : other == key with
    | true =>
      rw [beq_iff_eq.mp he, Option.not_isSome_iff_eq_none.mp hnew]
      simp
    | false => simp [List.lookup_cons, he]

section

variable [LawfulBEq α] {d : Dict α β} {key : α} {value : β}

theorem isSome_lookup_iff : (d.lookup key).isSome ↔ key ∈ d.map (·.1) := by
  rw [List.lookup_isSome_iff, List.mem_map]
  simp only [beq_iff_eq, @eq_comm _ key]

theorem lookup_eq_none_iff : d.lookup key = none ↔ key ∉ d.map (·.1) := by
  rw [← isSome_lookup_iff, Option.not_isSome_iff_eq_none]

omit [BEq α] [LawfulBEq α] in
theorem nodup_append_new (h : (d.map (·.1)).Nodup) (hnew : key ∉ d.map (·.1)) :
    (d.map (·.1) ++ [key]).Nodup := by
  refine List.nodup_append.mpr ⟨h, by simp, ?_⟩
  rintro a ha b hb rfl
  exact hnew (List.mem_singleton.mp hb ▸ ha)

theorem nodup_addNew (h : (d.map (·.1)).Nodup) : ((d.addNew key value).map (·.1)).Nodup := by
  unfold addNew
  split
  · exact h
  · next hnew =>
    rw [List.map_append]
    exact nodup_append_new h fun hmem => hnew (isSome_lookup_iff.mpr hmem)

theorem nodup_gather {d : Dict α (List β)} (h : (d.map (·.1)).Nodup) :
    ((d.gather key value).map (·.1)).Nodup := by
  rw [keys_gather]
  split
  · exact h
  · next hnew => exact nodup_append_new h fun hmem => hnew (isSome_lookup_iff.mpr hmem)

theorem lookup_of_mem (h : (d.map (·.1)).Nodup) (he : (key, value) ∈ d) :
    d.lookup key = some value := by
  induction d with
  | nil => cases he
  | cons e d ih =>
    obtain ⟨hfresh, h⟩ := List.nodup_cons.mp h
    rw [List.lookup_cons]
    rcases List.mem_cons.mp he with rfl | he
    · simp
    · have hne : (key == e.1) = false := by
        rw [beq_eq_false_iff_ne]
        rintro rfl
        exact hfresh (List.mem_map.mpr ⟨_, he, rfl⟩)
      rw [hne]
      exact ih h he

end

end Dict

end GoAtlas
