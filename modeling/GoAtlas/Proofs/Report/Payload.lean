import GoAtlas.Report.Payload
import GoAtlas.Proofs.Report.FileNames
import Mathlib

namespace GoAtlas

namespace Json

/-- A step down into a value. -/
inductive Step where
  | item (i : Nat)
  | key (k : String)
  deriving DecidableEq, Repr

mutual
/-- All parts of a value in order, itself first, each with the way to it, last step first. Lists and
objects are given empty, as what they hold is among the parts that follow. -/
def partsAt (way : List Step) : Json → List (List Step × Json)
  | .arr items => (way, .arr []) :: partsOfItems way 0 items
  | .obj fields => (way, .obj []) :: partsOfFields way fields
  | j => [(way, j)]

def partsOfItems (way : List Step) (i : Nat) : List Json → List (List Step × Json)
  | [] => []
  | j :: js => partsAt (.item i :: way) j ++ partsOfItems way (i + 1) js

def partsOfFields (way : List Step) : List (String × Json) → List (List Step × Json)
  | [] => []
  | (k, j) :: fs => partsAt (.key k :: way) j ++ partsOfFields way fs
end

def parts (j : Json) : List (List Step × Json) :=
  partsAt [] j

mutual
theorem suffix_of_mem_partsAt {way : List Step} {e : List Step × Json} :
    ∀ {j : Json}, e ∈ partsAt way j → way <:+ e.1
  | .arr items, h => by
    rw [partsAt] at h
    obtain rfl | h := List.mem_cons.mp h
    · exact List.suffix_refl way
    · exact suffix_of_mem_partsOfItems h
  | .obj fields, h => by
    rw [partsAt] at h
    obtain rfl | h := List.mem_cons.mp h
    · exact List.suffix_refl way
    · exact suffix_of_mem_partsOfFields h
  | .null, h | .bool _, h | .num _ _, h | .str _, h => by
    rw [partsAt, List.mem_singleton] at h
    · subst h
      exact List.suffix_refl way
    all_goals simp

theorem suffix_of_mem_partsOfItems {way : List Step} {i : Nat} {e : List Step × Json} :
    ∀ {js : List Json}, e ∈ partsOfItems way i js → way <:+ e.1
  | [], h => by cases h
  | j :: js, h => by
    rw [partsOfItems] at h
    obtain h | h := List.mem_append.mp h
    · exact (List.suffix_cons _ way).trans (suffix_of_mem_partsAt h)
    · exact suffix_of_mem_partsOfItems h

theorem suffix_of_mem_partsOfFields {way : List Step} {e : List Step × Json} :
    ∀ {fs : List (String × Json)}, e ∈ partsOfFields way fs → way <:+ e.1
  | [], h => by cases h
  | (k, j) :: fs, h => by
    rw [partsOfFields] at h
    obtain h | h := List.mem_append.mp h
    · exact (List.suffix_cons _ way).trans (suffix_of_mem_partsAt h)
    · exact suffix_of_mem_partsOfFields h
end

def Leaves (way : List Step) (es : List (List Step × Json)) : Prop :=
  ∀ e ∈ es.head?, ∀ step, ¬step :: way <:+ e.1

theorem partsAt_eq_cons (way : List Step) (j : Json) :
    ∃ top below, partsAt way j = (way, top) :: below := by
  cases j <;> exact ⟨_, _, rfl⟩

theorem Leaves.cons {way : List Step} {es : List (List Step × Json)} (h : Leaves way es)
    (step : Step) : Leaves (step :: way) es :=
  fun e he step' hsuffix => h e he step ((List.suffix_cons step' _).trans hsuffix)

theorem leaves_partsAt (way : List Step) (step step' : Step) (j : Json)
    (es : List (List Step × Json)) : Leaves (step :: way) (partsAt (step' :: way) j ++ es) := by
  obtain ⟨top, below, hj⟩ := partsAt_eq_cons (step' :: way) j
  intro e he step'' hsuffix
  rw [hj, List.cons_append, List.head?_cons, Option.mem_some_iff] at he
  have hlength := hsuffix.length_le
  rw [← he] at hlength
  simp only [List.length_cons] at hlength
  omega

theorem not_leaves_partsAt (way : List Step) (step : Step) (j : Json)
    (es : List (List Step × Json)) : ¬Leaves way (partsAt (step :: way) j ++ es) := by
  obtain ⟨top, below, hj⟩ := partsAt_eq_cons (step :: way) j
  rw [hj]
  exact fun h => h _ rfl step (List.suffix_refl _)

theorem leaves_partsOfItems {way : List Step} {es : List (List Step × Json)} (h : Leaves way es)
    (step : Step) (i : Nat) (js : List Json) :
    Leaves (step :: way) (partsOfItems way i js ++ es) := by
  cases js with
  | nil => exact h.cons step
  | cons j js =>
    rw [partsOfItems, List.append_assoc]
    exact leaves_partsAt way step (.item i) j _

theorem leaves_partsOfFields {way : List Step} {es : List (List Step × Json)} (h : Leaves way es)
    (step : Step) (fs : List (String × Json)) :
    Leaves (step :: way) (partsOfFields way fs ++ es) := by
  cases fs with
  | nil => exact h.cons step
  | cons f fs =>
    rw [partsOfFields, List.append_assoc]
    exact leaves_partsAt way step (.key f.1) f.2 _

mutual
theorem partsAt_append_inj {way : List Step} {es es' : List (List Step × Json)}
    (hes : Leaves way es) (hes' : Leaves way es') : ∀ {j j' : Json},
    partsAt way j ++ es = partsAt way j' ++ es' → j = j' ∧ es = es'
  | .arr items, j', h => by
    cases j' with
    | arr items' =>
      obtain ⟨rfl, hrest⟩ := partsOfItems_append_inj hes hes' (List.cons.inj h).2
      exact ⟨rfl, hrest⟩
    | _ => simp [partsAt] at h
  | .obj fields, j', h => by
    cases j' with
    | obj fields' =>
      obtain ⟨rfl, hrest⟩ := partsOfFields_append_inj hes hes' (List.cons.inj h).2
      exact ⟨rfl, hrest⟩
    | _ => simp [partsAt] at h
  | .null, j', h | .bool _, j', h | .num _ _, j', h | .str _, j', h => by
    cases j' <;> simp_all [partsAt]

theorem partsOfItems_append_inj {way : List Step} {i : Nat} {es es' : List (List Step × Json)}
    (hes : Leaves way es) (hes' : Leaves way es') : ∀ {js js' : List Json},
    partsOfItems way i js ++ es = partsOfItems way i js' ++ es' → js = js' ∧ es = es'
  | [], [], h => ⟨rfl, h⟩
  | [], j' :: js', h => by
    rw [partsOfItems, List.nil_append, partsOfItems, List.append_assoc] at h
    exact (not_leaves_partsAt way _ j' _ (h ▸ hes)).elim
  | j :: js, [], h => by
    rw [partsOfItems, partsOfItems, List.nil_append, List.append_assoc] at h
    exact (not_leaves_partsAt way _ j _ (h ▸ hes')).elim
  | j :: js, j' :: js', h => by
    rw [partsOfItems, partsOfItems, List.append_assoc, List.append_assoc] at h
    obtain ⟨rfl, hrest⟩ := partsAt_append_inj (leaves_partsOfItems hes _ _ js)
      (leaves_partsOfItems hes' _ _ js') h
    obtain ⟨rfl, hes⟩ := partsOfItems_append_inj hes hes' hrest
    exact ⟨rfl, hes⟩

theorem partsOfFields_append_inj {way : List Step} {es es' : List (List Step × Json)}
    (hes : Leaves way es) (hes' : Leaves way es') : ∀ {fs fs' : List (String × Json)},
    partsOfFields way fs ++ es = partsOfFields way fs' ++ es' → fs = fs' ∧ es = es'
  | [], [], h => ⟨rfl, h⟩
  | [], (k', j') :: fs', h => by
    rw [partsOfFields, List.nil_append, partsOfFields, List.append_assoc] at h
    exact (not_leaves_partsAt way _ j' _ (h ▸ hes)).elim
  | (k, j) :: fs, [], h => by
    rw [partsOfFields, partsOfFields, List.nil_append, List.append_assoc] at h
    exact (not_leaves_partsAt way _ j _ (h ▸ hes')).elim
  | (k, j) :: fs, (k', j') :: fs', h => by
    rw [partsOfFields, partsOfFields, List.append_assoc, List.append_assoc] at h
    have hkey : k = k' := by
      obtain ⟨top, below, hj⟩ := partsAt_eq_cons (.key k :: way) j
      obtain ⟨top', below', hj'⟩ := partsAt_eq_cons (.key k' :: way) j'
      rw [hj, hj'] at h
      simpa using congrArg Prod.fst (List.cons.inj h).1
    subst hkey
    obtain ⟨rfl, hrest⟩ := partsAt_append_inj (leaves_partsOfFields hes _ fs)
      (leaves_partsOfFields hes' _ fs') h
    obtain ⟨rfl, hes⟩ := partsOfFields_append_inj hes hes' hrest
    exact ⟨rfl, hes⟩
end

theorem parts_injective : Function.Injective parts := by
  intro j j' h
  have hnil : Leaves [] [] := fun e he => nomatch he
  exact (partsAt_append_inj hnil hnil (congrArg (· ++ []) h)).1

end Json

namespace Report

open Json

variable {cwd root k : String} {way : List Step}

def payloadUnder (cwd root k : String) : Json → Json
  | .str s => .str (if k = "file" then Path.shown cwd s root else s)
  | j => payload cwd root j

theorem payloadFields_unstable (h : isUnstable k = true) (j : Json) (fs : List (String × Json)) :
    payloadFields cwd root ((k, j) :: fs) = payloadFields cwd root fs := by
  cases j <;> rw [payloadFields, if_pos h] <;> simp

theorem payloadFields_stable (h : isUnstable k = false) (j : Json) (fs : List (String × Json)) :
    payloadFields cwd root ((k, j) :: fs) =
      (k, payloadUnder cwd root k j) :: payloadFields cwd root fs := by
  cases j <;> rw [payloadFields, if_neg (by simp [h])] <;> simp [payloadUnder]

theorem payloadUnder_of_ne {j : Json} (h : ∀ s, j ≠ .str s) :
    payloadUnder cwd root k j = payload cwd root j := by
  cases j with
  | str s => exact (h s rfl).elim
  | _ => rfl

theorem payload_ne_text {j : Json} (h : ∀ s, j ≠ .str s) (s : String) :
    payload cwd root j ≠ .str s := by
  cases j with
  | str s => exact (h s rfl).elim
  | _ => simp [payload]

def isKept (way : List Step) : Bool :=
  way.all fun
    | .item _ => true
    | .key k => !isUnstable k

/-- A part as reports have it: a text under the key of files is the name of a file. -/
def shownPart (cwd root : String) (e : List Step × Json) : List Step × Json :=
  match e.2 with
  | .str s => if e.1.head? = some (.key "file") then (e.1, .str (Path.shown cwd s root)) else e
  | _ => e

/-- The parts that are kept, as reports have them. -/
def keptParts (cwd root : String) (es : List (List Step × Json)) : List (List Step × Json) :=
  (es.filter fun e => isKept e.1).map (shownPart cwd root)

theorem shownPart_fst (e : List Step × Json) : (shownPart cwd root e).1 = e.1 := by
  rw [shownPart]
  split
  · split <;> rfl
  · rfl

theorem keptParts_append (es fs : List (List Step × Json)) :
    keptParts cwd root (es ++ fs) = keptParts cwd root es ++ keptParts cwd root fs := by
  rw [keptParts, List.filter_append, List.map_append, keptParts, keptParts]

theorem keptParts_cons (h : isKept way = true) (j : Json) (es : List (List Step × Json)) :
    keptParts cwd root ((way, j) :: es) = shownPart cwd root (way, j) :: keptParts cwd root es := by
  rw [keptParts, List.filter_cons, if_pos h, List.map_cons, keptParts]

theorem isKept_of_mem_keptParts {e : List Step × Json} {es : List (List Step × Json)}
    (h : e ∈ keptParts cwd root es) : isKept e.1 = true := by
  obtain ⟨e, he, rfl⟩ := List.mem_map.mp h
  rw [shownPart_fst]
  exact (List.mem_filter.mp he).2

theorem isUnstable_of_isKept (h : isKept way = true) (hk : Step.key k ∈ way) :
    isUnstable k = false := by
  simpa using List.all_eq_true.mp h (.key k) hk

theorem keptParts_singleton (h : isKept way = true) (j : Json) :
    keptParts cwd root [(way, j)] = [shownPart cwd root (way, j)] :=
  keptParts_cons h j []

theorem keptParts_unstable (h : isUnstable k = true) (j : Json) :
    keptParts cwd root (partsAt (.key k :: way) j) = [] := by
  rw [keptParts, List.map_eq_nil_iff, List.filter_eq_nil_iff]
  intro e he hkept
  have hk : Step.key k ∈ e.1 := (suffix_of_mem_partsAt he).subset List.mem_cons_self
  rw [isUnstable_of_isKept hkept hk] at h
  cases h

theorem shownPart_text (h : way.head? ≠ some (.key "file")) (s : String) :
    shownPart cwd root (way, .str s) = (way, .str s) :=
  if_neg h

theorem shownPart_key (s : String) : shownPart cwd root (.key k :: way, .str s) =
    (.key k :: way, .str (if k = "file" then Path.shown cwd s root else s)) := by
  by_cases hk : k = "file"
  · rw [if_pos hk, hk]
    rfl
  · rw [if_neg hk, shownPart_text]
    simpa using hk

mutual
/-- A value in a report has the parts that are kept of it, unless it is a text under the key of files,
which the object around it names. -/
theorem partsAt_payload {way : List Step} (hway : isKept way = true) :
    ∀ j : Json, (∀ s, j = .str s → way.head? ≠ some (.key "file")) →
      partsAt way (payload cwd root j) = keptParts cwd root (partsAt way j)
  | .arr items, _ => by
    rw [payload, partsAt, partsAt, keptParts_cons hway, partsOfItems_payloadAll hway]
    rfl
  | .obj fields, _ => by
    rw [payload, partsAt, partsAt, keptParts_cons hway, partsOfFields_payloadFields hway]
    rfl
  | .str s, h => by
    change [(way, Json.str s)] = keptParts cwd root [(way, .str s)]
    rw [keptParts_singleton hway, shownPart_text (h s rfl)]
  | .null, _ => (keptParts_singleton hway .null).symm
  | .bool b, _ => (keptParts_singleton hway (.bool b)).symm
  | .num m n, _ => (keptParts_singleton hway (.num m n)).symm

theorem partsOfItems_payloadAll {way : List Step} (hway : isKept way = true) {i : Nat} :
    ∀ js : List Json, partsOfItems way i (payloadAll cwd root js) =
      keptParts cwd root (partsOfItems way i js)
  | [] => rfl
  | j :: js => by
    have hitem : isKept (.item i :: way) = true := hway
    rw [payloadAll, partsOfItems, partsOfItems, keptParts_append, partsOfItems_payloadAll hway js,
      partsAt_payload hitem j (by simp)]

theorem partsOfFields_payloadFields {way : List Step} (hway : isKept way = true) :
    ∀ fs : List (String × Json), partsOfFields way (payloadFields cwd root fs) =
      keptParts cwd root (partsOfFields way fs)
  | [] => rfl
  | (k, j) :: fs => by
    have hrest := partsOfFields_payloadFields hway fs
    rw [partsOfFields, keptParts_append, ← hrest]
    cases hk : isUnstable k with
    | true => rw [keptParts_unstable hk, List.nil_append, payloadFields_unstable hk]
    | false =>
      have hkey : isKept (.key k :: way) = true := by simpa [isKept, hk] using hway
      have hvalue : partsAt (.key k :: way) (payloadUnder cwd root k j) =
          keptParts cwd root (partsAt (.key k :: way) j) := by
        by_cases htext : ∃ s, j = .str s
        · obtain ⟨s, rfl⟩ := htext
          change _ = keptParts cwd root [(.key k :: way, .str s)]
          rw [keptParts_singleton hkey, shownPart_key]
          rfl
        · have hother : ∀ s, j ≠ .str s := fun s he => htext ⟨s, he⟩
          rw [payloadUnder_of_ne hother]
          exact partsAt_payload hkey j fun s he => (hother s he).elim
      rw [payloadFields_stable hk, partsOfFields, hvalue]
end

mutual
theorem payload_payload
    (hshown : ∀ s, Path.shown cwd (Path.shown cwd s root) root = Path.shown cwd s root) :
    ∀ j : Json, payload cwd root (payload cwd root j) = payload cwd root j
  | .arr items => by simp only [payload, payloadAll_payloadAll hshown items]
  | .obj fields => by simp only [payload, payloadFields_payloadFields hshown fields]
  | .null | .bool _ | .num _ _ | .str _ => rfl

theorem payloadAll_payloadAll
    (hshown : ∀ s, Path.shown cwd (Path.shown cwd s root) root = Path.shown cwd s root) :
    ∀ js : List Json, payloadAll cwd root (payloadAll cwd root js) = payloadAll cwd root js
  | [] => rfl
  | j :: js => by
    simp only [payloadAll, payload_payload hshown j, payloadAll_payloadAll hshown js]

theorem payloadFields_payloadFields
    (hshown : ∀ s, Path.shown cwd (Path.shown cwd s root) root = Path.shown cwd s root) :
    ∀ fs : List (String × Json),
      payloadFields cwd root (payloadFields cwd root fs) = payloadFields cwd root fs
  | [] => rfl
  | (k, j) :: fs => by
    have hrest := payloadFields_payloadFields hshown fs
    cases hk : isUnstable k with
    | true => rw [payloadFields_unstable hk, hrest]
    | false =>
      have hvalue : payloadUnder cwd root k (payloadUnder cwd root k j) =
          payloadUnder cwd root k j := by
        by_cases htext : ∃ s, j = .str s
        · obtain ⟨s, rfl⟩ := htext
          by_cases hfile : k = "file" <;> simp [payloadUnder, hfile, hshown]
        · have hother : ∀ s, j ≠ .str s := fun s he => htext ⟨s, he⟩
          rw [payloadUnder_of_ne hother, payloadUnder_of_ne (payload_ne_text hother)]
          exact payload_payload hshown j
      rw [payloadFields_stable hk, payloadFields_stable hk, hvalue, hrest]
end

/-- Where the root is the current directory, no part of a value in a report lies under an unstable key;
it is the one value with the other parts, in order and with files named from the root; and it is its own
report. -/
theorem payload_scrubbed (hcwd : Path.isAbsolute cwd = true)
    (hroot : Path.absoluteParts cwd root = Path.absoluteParts cwd cwd) (v : Json) :
    (∀ e ∈ (payload cwd root v).parts, Step.key "position" ∉ e.1 ∧ Step.key "end" ∉ e.1) ∧
      (∀ w : Json, w.parts = keptParts cwd root v.parts ↔ w = payload cwd root v) ∧
      payload cwd root (payload cwd root v) = payload cwd root v := by
  have hparts : (payload cwd root v).parts = keptParts cwd root v.parts :=
    partsAt_payload rfl v fun _ _ => by simp
  refine ⟨?_, ?_, payload_payload (Path.shown_shown hcwd hroot) v⟩
  · intro e he
    rw [hparts] at he
    have hkept := isKept_of_mem_keptParts he
    exact ⟨fun h => absurd (isUnstable_of_isKept hkept h) (by decide),
      fun h => absurd (isUnstable_of_isKept hkept h) (by decide)⟩
  · intro w
    rw [← hparts]
    exact parts_injective.eq_iff

/-- A finding as it is before it is reported: its positions go at every depth, and of its files the one
below the root is named from there. -/
theorem payload_scrubbed_finding :
    payload "/ws" "/ws" (.obj [("end", .str "7"), ("file", .str "/ws/./a.go"),
        ("seen", .arr [.obj [("file", .str "/ext/b.go"), ("position", .null)], .str "/ws/a.go"])]) =
      .obj [("file", .str "a.go"),
        ("seen", .arr [.obj [("file", .str "/ext/b.go")], .str "/ws/a.go"])] := by
  have hcwd : Path.isAbsolute "/ws" = true := by decide
  symm
  apply ((payload_scrubbed hcwd rfl _).2.1 _).mp
  cbv

end Report

end GoAtlas
