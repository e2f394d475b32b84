import GoAtlas.Source.Registry

namespace GoAtlas.Source

namespace Slot

variable {s : Slot} {p : Int}

/-- A position of the slot: that of one of its bytes, or of its end. -/
def Holds (s : Slot) (p : Int) : Prop :=
  (s.base : Int) ≤ p ∧ p ≤ s.base + s.size

theorem pos_eq_ok {o : Int} (h : 0 ≤ o) (hs : o ≤ s.size) : s.pos o = .ok (s.base + o) := by
  rw [pos, if_neg (by omega)]

theorem pos_eq_error {o : Int} (h : o < 0 ∨ s.size < o) :
    s.pos o = .error (.offset o s.file s.size) :=
  if_pos h

theorem offset_eq_ok (h : s.Holds p) : s.offset p = .ok (p - s.base) := by
  rw [offset, if_neg (by have := h.1; have := h.2; omega)]

theorem offset_eq_error (h : ¬s.Holds p) : s.offset p = .error (.position p s.file) := by
  rw [offset, if_pos (by unfold Holds at h; omega)]

theorem offset_pos {o : Int} (h : 0 ≤ o) (hs : o ≤ s.size) :
    s.Holds (s.base + o) ∧ s.offset (s.base + o) = .ok o := by
  have hp : s.Holds (s.base + o) := ⟨by omega, by omega⟩
  rw [offset_eq_ok hp]
  exact ⟨hp, congrArg _ (by omega)⟩

theorem pos_offset (h : s.Holds p) : s.pos (p - s.base) = .ok p := by
  rw [pos_eq_ok (by have := h.1; omega) (by have := h.2; omega)]
  exact congrArg _ (by omega)

theorem pos_error_iff {o : Int} : (∃ e, s.pos o = .error e) ↔ o < 0 ∨ s.size < o := by
  constructor
  · rintro ⟨e, he⟩
    by_cases h : o < 0 ∨ s.size < o
    · exact h
    · rw [pos_eq_ok (by omega) (by omega)] at he
      cases he
  · intro h
    exact ⟨_, pos_eq_error h⟩

theorem offset_error_iff : (∃ e, s.offset p = .error e) ↔ ¬s.Holds p := by
  constructor
  · rintro ⟨e, he⟩ h
    rw [offset_eq_ok h] at he
    cases he
  · intro h
    exact ⟨_, offset_eq_error h⟩

/-- A line and a column tell which byte of a file they are those of. -/
theorem place_inj {a b : Int} (hline : (s.place a).line = (s.place b).line)
    (hcolumn : (s.place a).column = (s.place b).column) : a = b := by
  have hlength : (s.startsUpTo a).length = (s.startsUpTo b).length := Int.ofNat.inj hline
  have hstarts : s.startsUpTo a = s.startsUpTo b :=
    (List.prefix_of_prefix_length_le (List.takeWhile_prefix _) (List.takeWhile_prefix _)
      (Nat.le_of_eq hlength)).eq_of_length hlength
  simp only [place, hstarts] at hcolumn
  omega

end Slot

namespace Registry

variable {r : Registry} {s : Slot} {p : Int}

/-- Slots follow each other without overlap, and the next one comes after all of them. -/
structure Ordered (r : Registry) : Prop where
  apart : r.slots.Pairwise fun a b => a.base + a.size < b.base
  next : ∀ s ∈ r.slots, s.base + s.size < r.nextBase

theorem ordered_empty : ({} : Registry).Ordered :=
  ⟨.nil, nofun⟩

theorem Ordered.add (h : r.Ordered) (file : String) (content : ByteArray) :
    (r.add file content).2.Ordered := by
  constructor
  · apply List.pairwise_append.mpr
    refine ⟨h.apart, by simp, ?_⟩
    intro a ha b hb
    rw [List.mem_singleton.mp hb]
    exact h.next a ha
  · intro s hs
    rcases List.mem_append.mp hs with hs | hs
    · have := h.next s hs
      simp only [Registry.add]
      omega
    · rw [List.mem_singleton.mp hs]
      simp only [Registry.add, slotFor]
      omega

theorem mem_of_slot? (h : r.slot? p = some s) : s ∈ r.slots ∧ s.Holds p := by
  unfold slot? at h
  split at h
  · cases h
  · next t ht =>
    split at h
    · cases h
    · next hle =>
      cases h
      have hmem := List.mem_of_getLast? ht
      have hbase := List.all_eq_true.mp List.all_takeWhile _ hmem
      simp only [decide_eq_true_eq] at hbase
      exact ⟨(List.takeWhile_sublist _).subset hmem, hbase, by omega⟩

theorem Ordered.takeWhile_eq (h : r.Ordered) {before after : List Slot}
    (he : r.slots = before ++ s :: after) (hp : s.Holds p) :
    (r.slots.takeWhile fun t => decide ((t.base : Int) ≤ p)) = before ++ [s] := by
  have ha := he ▸ h.apart
  rw [List.pairwise_append, List.pairwise_cons] at ha
  obtain ⟨_, ⟨hafter, _⟩, hbefore⟩ := ha
  obtain ⟨hlo, hhi⟩ := hp
  rw [he, List.takeWhile_append_of_pos, List.takeWhile_cons_of_pos (by simpa using hlo)]
  · cases after with
    | nil => rfl
    | cons t after =>
      have := hafter t List.mem_cons_self
      have ht : ¬(t.base : Int) ≤ p := by omega
      rw [List.takeWhile_cons_of_neg (by simpa using ht)]
  · intro t ht
    have := hbefore t ht s List.mem_cons_self
    simp only [decide_eq_true_eq]
    omega

theorem Ordered.slot?_eq (h : r.Ordered) (hs : s ∈ r.slots) (hp : s.Holds p) :
    r.slot? p = some s := by
  obtain ⟨before, after, he⟩ := List.append_of_mem hs
  have := hp.2
  rw [Registry.slot?, h.takeWhile_eq he hp]
  simp only [List.getLast?_append, List.getLast?_singleton, Option.some_or]
  rw [if_neg (by omega)]

/-- A position within the slot of a file leads to that slot. -/
theorem Ordered.slot? (h : r.Ordered) {s : Slot} (hs : s ∈ r.slots) {offset : Nat}
    (ho : offset ≤ s.size) : r.slot? (s.base + offset : Int) = some s := by
  apply h.slot?_eq hs
  exact ⟨by omega, by omega⟩

theorem Ordered.slot?_eq_some_iff (h : r.Ordered) :
    r.slot? p = some s ↔ s ∈ r.slots ∧ s.Holds p := by
  constructor
  · exact mem_of_slot?
  · rintro ⟨hs, hp⟩
    exact h.slot?_eq hs hp

def Full (r : Registry) : Prop :=
  ∀ p : Int, (∃ s ∈ r.slots, s.Holds p) ↔ 1 ≤ p ∧ p < r.nextBase

theorem full_empty : ({} : Registry).Full := by
  intro p
  simp

theorem Full.add (h : r.Full) (hb : 1 ≤ r.nextBase) (file : String) (content : ByteArray) :
    (r.add file content).2.Full := by
  intro p
  have hold := h p
  have hlast : (r.slotFor file content).Holds p ↔
      (r.nextBase : Int) ≤ p ∧ p < r.nextBase + content.size + 1 := by
    simp only [Slot.Holds, slotFor]
    omega
  simp only [Registry.add, List.mem_append, List.mem_singleton, or_and_right, exists_or,
    exists_eq_left, hold, hlast]
  omega

/-- Files added one after the other: the slots they get, and the registry after them. -/
def register (r : Registry) : List (String × ByteArray) → List Slot × Registry
  | [] => ([], r)
  | (file, content) :: files =>
    let (s, r) := r.add file content
    let (given, r) := r.register files
    (s :: given, r)

theorem register_cons (r : Registry) (file : String) (content : ByteArray)
    (files : List (String × ByteArray)) :
    r.register ((file, content) :: files) =
      (r.slotFor file content :: ((r.add file content).2.register files).1,
        ((r.add file content).2.register files).2) :=
  rfl

theorem register_append (r : Registry) (files more : List (String × ByteArray)) :
    (r.register (files ++ more)).2 = ((r.register files).2.register more).2 := by
  induction files generalizing r with
  | nil => rfl
  | cons f files ih => exact ih (r.add f.1 f.2).2

theorem slots_register (r : Registry) (files : List (String × ByteArray)) :
    (r.register files).2.slots = r.slots ++ (r.register files).1 := by
  induction files generalizing r with
  | nil => simp [register]
  | cons f files ih =>
    obtain ⟨file, content⟩ := f
    rw [register_cons]
    simp only [ih]
    simp [Registry.add]

theorem contents_register (r : Registry) (files : List (String × ByteArray)) :
    (r.register files).1.map (fun s => (s.file, s.size, s.lineStarts)) =
      files.map fun f => (f.1, f.2.size, lineStarts f.2) := by
  induction files generalizing r with
  | nil => rfl
  | cons f files ih =>
    obtain ⟨file, content⟩ := f
    rw [register_cons, List.map_cons, List.map_cons, ih]
    rfl

theorem nextBase_le_register (r : Registry) (files : List (String × ByteArray)) :
    r.nextBase ≤ (r.register files).2.nextBase := by
  induction files generalizing r with
  | nil => exact Nat.le_refl _
  | cons f files ih =>
    obtain ⟨file, content⟩ := f
    have := ih (r.add file content).2
    rw [register_cons]
    simp only [Registry.add] at this ⊢
    omega

theorem Ordered.register (h : r.Ordered) (files : List (String × ByteArray)) :
    (r.register files).2.Ordered := by
  induction files generalizing r with
  | nil => exact h
  | cons f files ih => exact ih (h.add f.1 f.2)

theorem Full.register (h : r.Full) (hb : 1 ≤ r.nextBase) (files : List (String × ByteArray)) :
    (r.register files).2.Full := by
  induction files generalizing r with
  | nil => exact h
  | cons f files ih =>
    apply ih (h.add hb f.1 f.2)
    simp only [Registry.add]
    omega

theorem Ordered.slot?_register (h : r.Ordered) (hf : r.Full) (hp : p < r.nextBase)
    (hb : 1 ≤ r.nextBase) (files : List (String × ByteArray)) :
    (r.register files).2.slot? p = r.slot? p := by
  have hmore : ∀ s ∈ r.slots, s ∈ (r.register files).2.slots := by
    intro s hs
    rw [slots_register]
    exact List.mem_append_left _ hs
  cases he : r.slot? p with
  | some s =>
    obtain ⟨hs, hh⟩ := mem_of_slot? he
    exact (h.register files).slot?_eq (hmore s hs) hh
  | none =>
    apply Option.eq_none_iff_forall_ne_some.mpr
    intro s hs
    obtain ⟨hmem, hh⟩ := mem_of_slot? hs
    have hpos := ((hf.register hb files) p).mp ⟨s, hmem, hh⟩
    obtain ⟨t, ht, hth⟩ := (hf p).mpr ⟨hpos.1, hp⟩
    rw [h.slot?_eq ht hth] at he
    cases he

/-- What adding `files` to an empty registry comes to: `given` are the slots handed out, and `r` is
the registry afterwards. -/
structure Partition (files : List (String × ByteArray)) (given : List Slot) (r : Registry) :
    Prop where
  /-- The slots kept are those handed out, one for each file and in the files' order. -/
  slots : r.slots = given
  contents : given.map (fun s => (s.file, s.size, s.lineStarts)) =
    files.map fun f => (f.1, f.2.size, lineStarts f.2)
  apart : given.Pairwise fun a b => a.base + a.size < b.base
  covers : ∀ p : Int, (∃ s ∈ given, s.Holds p) ↔ 1 ≤ p ∧ p < r.nextBase
  lookup : ∀ (p : Int) (s : Slot), r.slot? p = some s ↔ s ∈ given ∧ s.Holds p
  offset_pos : ∀ s ∈ given, ∀ o : Int, 0 ≤ o → o ≤ s.size →
    ∃ p, s.pos o = .ok p ∧ r.slot? p = some s ∧ s.offset p = .ok o
  pos_offset : ∀ s ∈ given, ∀ p : Int, s.Holds p → ∃ o, s.offset p = .ok o ∧ s.pos o = .ok p
  pos_error : ∀ s ∈ given, ∀ o : Int, (∃ e, s.pos o = .error e) ↔ o < 0 ∨ s.size < o
  offset_error : ∀ s ∈ given, ∀ p : Int, (∃ e, s.offset p = .error e) ↔ ¬s.Holds p
  /-- Files added later leave the slots, and what a position below the next base leads to. -/
  later : ∀ more, given <+: (r.register more).2.slots ∧
    ∀ p : Int, p < r.nextBase →
      (r.register more).2.slot? p = r.slot? p ∧ (r.register more).2.place? p = r.place? p

theorem register_partition (files : List (String × ByteArray)) :
    Partition files (({} : Registry).register files).1 (({} : Registry).register files).2 := by
  have hslots : (({} : Registry).register files).2.slots = (({} : Registry).register files).1 :=
    slots_register {} files
  have hord := ordered_empty.register files
  have hfull := full_empty.register (Nat.le_refl 1) files
  have hbase : 1 ≤ (({} : Registry).register files).2.nextBase := nextBase_le_register {} files
  generalize (({} : Registry).register files).2 = r at *
  generalize hgiven : (({} : Registry).register files).1 = given at *
  subst hslots
  constructor
  case slots => rfl
  case contents => rw [← hgiven, contents_register]
  case apart => exact hord.apart
  case covers => exact hfull
  case lookup =>
    intro p s
    exact hord.slot?_eq_some_iff
  case offset_pos =>
    intro s hs o h0 ho
    obtain ⟨hp, hoff⟩ := Slot.offset_pos h0 ho
    exact ⟨_, Slot.pos_eq_ok h0 ho, hord.slot?_eq hs hp, hoff⟩
  case pos_offset =>
    intro s _ p hp
    exact ⟨_, Slot.offset_eq_ok hp, Slot.pos_offset hp⟩
  case pos_error =>
    intro s _ o
    exact Slot.pos_error_iff
  case offset_error =>
    intro s _ p
    exact Slot.offset_error_iff
  case later =>
    intro more
    constructor
    · exact ⟨_, (slots_register r more).symm⟩
    · intro p hp
      have he := hord.slot?_register hfull hp hbase more
      exact ⟨he, by rw [place?, place?, he]⟩

end Registry

end GoAtlas.Source
