import Mathlib.Logic.Function.Basic
import TagWire.Proofs.Encoding.TagOrder

/-!
Sets of unknown units as logs. What was done to a set comes down to the list of the units that were
added since it was emptied: the set holds those with a tag in the order of the list, whichever units
with other tags came between them.
-/

namespace TagWire.UnknownSet

-----------------------------------------------------------------------------------------
-- Sets in good order
-----------------------------------------------------------------------------------------

/-- Units are kept under their own tags, which ascend, and there are some under each. -/
structure Filed (set : UnknownSet) : Prop extends set.Ordered where
  filed
    : ∀ {tag units}, TagMap.find? set tag = some units → ∀ unit ∈ units, unit.tag = tag

theorem Fits.allFiled {schema : Schema} {type : MessageType} {set : UnknownSet}
    (h : set.Fits schema type)
    : set.Filed :=
  ⟨h.ordered, h.filed⟩

section Order

variable {set other : UnknownSet}

theorem Ordered.find?_eq (h : set.Ordered) (tag : Nat)
    : TagMap.find? set tag = Reference.entryOf? (set.unitsAt tag) :=
  (Reference.entryOf?_unitsAt (fun _ => h.nonempty)).symm

/-- A set is determined by the units with each tag. -/
theorem Ordered.ext (h : set.Ordered) (ho : other.Ordered)
    (same : ∀ tag, set.unitsAt tag = other.unitsAt tag)
    : set = other :=
  h.ascending.ext ho.ascending (fun tag => by rw [h.find?_eq, ho.find?_eq, same])

theorem Ordered.nil : Ordered [] := ⟨TagMap.Ascending.nil, fun h => by simp [TagMap.find?] at h⟩

theorem Filed.tail {entry : Nat × List RawUnit} {rest : UnknownSet}
    (h : Filed (entry :: rest))
    : Filed rest := by
  have lift {tag : Nat} {units : List RawUnit} (hf : TagMap.find? rest tag = some units)
      : TagMap.find? (entry :: rest) tag = some units :=
    h.ascending.find?_of_mem (List.mem_cons_of_mem _ (TagMap.mem_of_find? hf))
  exact ⟨⟨h.ascending.tail, fun hf => h.nonempty (lift hf)⟩, fun hf => h.filed (lift hf)⟩

theorem Filed.tag_of_mem {tag : Nat} {units : List RawUnit} (h : set.Filed)
    (he : (tag, units) ∈ set)
    : ∀ unit ∈ units, unit.tag = tag :=
  h.filed (h.ascending.find?_of_mem he)

/-- All units are listed by ascending tag, by induction on the entries. -/
theorem Filed.ascending_units (h : set.Filed)
    : set.units.Pairwise (fun unit later => unit.tag ≤ later.tag) := by
  induction set with
  | nil => exact List.Pairwise.nil
  | cons entry rest ih =>
      have head := h.tag_of_mem List.mem_cons_self
      rw [units, List.flatMap_cons, ← units, List.pairwise_append]
      refine ⟨List.pairwise_of_forall_mem_list (fun unit hu later hl => ?_), ih h.tail, ?_⟩
      · exact Nat.le_of_eq ((head unit hu).trans (head later hl).symm)
      · intro unit hu later hl
        obtain ⟨⟨tag, units⟩, he, hm⟩ := List.mem_flatMap.mp hl
        rw [head unit hu, h.tail.tag_of_mem he later hm]
        exact Nat.le_of_lt (h.ascending.head_lt _ he)

/-- Of all units, those with a tag are those that are kept under it, by induction on the entries. -/
theorem Filed.filter_units_tag (h : set.Filed) (tag : Nat)
    : set.units.filter (fun unit => unit.tag == tag) = set.unitsAt tag := by
  induction set with
  | nil => rfl
  | cons entry rest ih =>
      obtain ⟨head, own⟩ := entry
      have tags := h.tag_of_mem List.mem_cons_self
      rw [units, List.flatMap_cons, ← units, List.filter_append, ih h.tail]
      by_cases he : head = tag
      · have all : own.filter (fun unit => unit.tag == tag) = own :=
          List.filter_eq_self.mpr (fun unit hu => by simp [tags unit hu, he])
        have others : unitsAt rest tag = [] := by
          rw [unitsAt, ← he, h.ascending.find?_tail_head, Option.getD_none]
        rw [all, others, List.append_nil, unitsAt, TagMap.find?, if_pos he, Option.getD_some]
      · have none : own.filter (fun unit => unit.tag == tag) = [] :=
          List.filter_eq_nil_iff.mpr (fun unit hu => by simpa [tags unit hu] using he)
        rw [none, List.nil_append, unitsAt, unitsAt, TagMap.find?, if_neg he]

end Order

-----------------------------------------------------------------------------------------
-- Sets and logs
-----------------------------------------------------------------------------------------

/-- A set holds, under each tag, the units of a log that have it. -/
structure Logs (set : UnknownSet) (log : List RawUnit) : Prop where
  ordered : set.Ordered
  atTag : ∀ tag, set.unitsAt tag = log.filter (fun unit => unit.tag == tag)

/-- What a set tells of a log: the units with a tag, in their order; all units by ascending tag,
those with one tag in their order; how many there are, and whether there is any.
-/
structure Tells (set : UnknownSet) (log : List RawUnit) : Prop where
  atTag : ∀ tag, set.unitsAt tag = log.filter (fun unit => unit.tag == tag)
  all : set.units.Perm log
  byTag : set.units.Pairwise (fun unit later => unit.tag ≤ later.tag)
  inOrder
    : ∀ tag,
        set.units.filter (fun unit => unit.tag == tag)
        = log.filter (fun unit => unit.tag == tag)
  size : set.size = log.length
  isEmpty : set.isEmpty = true ↔ set.size = 0

theorem unitsAt_extendAt (set : UnknownSet) (tag : Nat) (more : List RawUnit) (other : Nat)
    : (set.extendAt tag more).unitsAt other
      = if tag = other then set.unitsAt tag ++ more else set.unitsAt other := by
  rw [unitsAt, extendAt, TagMap.find?_insert]
  split <;> rfl

theorem Ordered.extendAt {set : UnknownSet} (h : set.Ordered) (tag : Nat) {more : List RawUnit}
    (nonempty : more ≠ [])
    : (set.extendAt tag more).Ordered := by
  refine ⟨h.ascending.insert, fun {other units} hf => ?_⟩
  rw [UnknownSet.extendAt, TagMap.find?_insert] at hf
  split at hf
  · obtain rfl := Option.some.inj hf
    simp [nonempty]
  · exact h.nonempty hf

theorem Ordered.extend {set more : UnknownSet} (h : set.Ordered) (hm : more.Ordered)
    : (set.extend more).Ordered := by
  refine ⟨ascending_extend h.ascending more, fun {tag units} hf => ?_⟩
  rw [find?_extend set hm.ascending] at hf
  split at hf
  · exact h.nonempty hf
  · next own hown =>
      obtain rfl := Option.some.inj hf
      simp [hm.nonempty hown]

namespace Logs

variable {set other : UnknownSet} {log more : List RawUnit}

theorem nil : Logs [] [] := ⟨.nil, fun _ => rfl⟩

theorem push (h : set.Logs log) (unit : RawUnit) : (set.push unit).Logs (log ++ [unit]) := by
  refine ⟨h.ordered.extendAt unit.tag (List.cons_ne_nil _ _), fun tag => ?_⟩
  rw [UnknownSet.push, unitsAt_extendAt, List.filter_append, h.atTag, h.atTag]
  split
  · next he => simp [he]
  · next he => simp [he]

/-- The other set is gone through by ascending tag, but no unit gets before another with its tag. -/
theorem extend (h : set.Logs log) (ho : other.Logs more)
    : (set.extend other).Logs (log ++ more) := by
  refine ⟨h.ordered.extend ho.ordered, fun tag => ?_⟩
  rw [unitsAt_extend set ho.ordered.ascending, h.atTag, ho.atTag, List.filter_append]

theorem allFiled (h : set.Logs log) : set.Filed := by
  refine ⟨h.ordered, fun {tag units} hf unit hu => ?_⟩
  have hunits : set.unitsAt tag = units := by rw [unitsAt, hf, Option.getD_some]
  rw [← hunits, h.atTag] at hu
  simpa using (List.mem_filter.mp hu).2

/-- Sets are the same exactly if their logs have the same units with each tag, in the same order. -/
theorem eq_iff (h : set.Logs log) (ho : other.Logs more)
    : set = other
      ↔ ∀ tag,
          log.filter (fun unit => unit.tag == tag) = more.filter (fun unit => unit.tag == tag) := by
  simp only [← h.atTag, ← ho.atTag]
  constructor
  · rintro rfl tag
    rfl
  · exact h.ordered.ext ho.ordered

theorem perm (h : set.Logs log) : set.units.Perm log := by
  refine List.perm_iff_count.mpr (fun unit => ?_)
  have own (units : List RawUnit)
      : (units.filter (fun other => other.tag == unit.tag)).count unit = units.count unit :=
    List.count_filter (beq_self_eq_true unit.tag)
  rw [← own set.units, h.allFiled.filter_units_tag, h.atTag, own]

theorem tells (h : set.Logs log) : set.Tells log where
  atTag := h.atTag
  all := h.perm
  byTag := h.allFiled.ascending_units
  inOrder tag := by rw [h.allFiled.filter_units_tag, h.atTag]
  size := h.perm.length_eq
  isEmpty := by
    rw [UnknownSet.size, List.length_eq_zero_iff, List.isEmpty_iff]
    constructor
    · rintro rfl
      rfl
    · intro he
      refine h.ordered.ext .nil (fun tag => ?_)
      rw [← h.allFiled.filter_units_tag, he]
      rfl

end Logs

-----------------------------------------------------------------------------------------
-- Calls on many sets
-----------------------------------------------------------------------------------------

/-- A call on one of some sets. -/
inductive Call (ι : Type) where
  | push (index : ι) (unit : RawUnit)
  /-- Add the units of a copy of a set. -/
  | extend (index source : ι)
  | clear (index : ι)

section Calls

variable {ι : Type} [DecidableEq ι]

namespace Call

/-- The sets after a call. -/
def change (sets : ι → UnknownSet) : Call ι → ι → UnknownSet
  | push index unit => Function.update sets index ((sets index).push unit)
  | extend index source => Function.update sets index ((sets index).extend (sets source))
  | clear index => Function.update sets index []

/-- The logs after a call. A log has what was added since the set was emptied. -/
def note (logs : ι → List RawUnit) : Call ι → ι → List RawUnit
  | push index unit => Function.update logs index (logs index ++ [unit])
  | extend index source => Function.update logs index (logs index ++ logs source)
  | clear index => Function.update logs index []

end Call

/-- The sets after some calls. All are empty at first. -/
def afterCalls (calls : List (Call ι)) : ι → UnknownSet := calls.foldl Call.change (fun _ => [])

/-- The logs after some calls. -/
def logsAfter (calls : List (Call ι)) : ι → List RawUnit := calls.foldl Call.note (fun _ => [])

/-- What holds of two functions at each place still does after both are changed at one. -/
theorem forall_update {α β : Type} {related : α → β → Prop} {left : ι → α} {right : ι → β}
    (h : ∀ index, related (left index) (right index)) (index : ι) {a : α} {b : β}
    (hab : related a b) (place : ι)
    : related (Function.update left index a place) (Function.update right index b place) := by
  by_cases he : place = index
  · subst he
    simpa using hab
  · simpa [he] using h place

/-- A call leaves each set with its log. -/
theorem Logs.change {sets : ι → UnknownSet} {logs : ι → List RawUnit}
    (h : ∀ index, (sets index).Logs (logs index)) (call : Call ι)
    : ∀ index, (call.change sets index).Logs (call.note logs index) := by
  cases call with
  | push index unit => exact forall_update h index ((h index).push unit)
  | extend index source => exact forall_update h index ((h index).extend (h source))
  | clear index => exact forall_update h index .nil

/-- Any number of calls do, by induction on the calls. -/
theorem Logs.foldl_change {sets : ι → UnknownSet} {logs : ι → List RawUnit}
    (h : ∀ index, (sets index).Logs (logs index)) (calls : List (Call ι))
    : ∀ index, (calls.foldl Call.change sets index).Logs (calls.foldl Call.note logs index) := by
  induction calls generalizing sets logs with
  | nil => exact h
  | cons call calls ih => exact ih (Logs.change h call)

/-- Whatever is done to however many sets, each tells of the units that were added to it since it
was last emptied, in the order in which they were. Two sets are the same exactly if they hold the
same under each tag, which they do exactly if their units came in the same order under each tag,
whatever was between them.
-/
theorem afterCalls_tell_logs (calls : List (Call ι))
    : (∀ index, (afterCalls calls index).Tells (logsAfter calls index))
      ∧ (∀ index other,
          afterCalls calls index = afterCalls calls other
          ↔ ∀ tag,
              (afterCalls calls index).unitsAt tag = (afterCalls calls other).unitsAt tag)
      ∧ ∀ index other,
          afterCalls calls index = afterCalls calls other
          ↔ ∀ tag,
              (logsAfter calls index).filter (fun unit => unit.tag == tag)
              = (logsAfter calls other).filter (fun unit => unit.tag == tag) := by
  have logs (index : ι) : (afterCalls calls index).Logs (logsAfter calls index) :=
    Logs.foldl_change (fun _ => .nil) calls index
  refine ⟨fun index => (logs index).tells, fun index other => ?_,
    fun index other => (logs index).eq_iff (logs other)⟩
  simp only [(logs index).eq_iff (logs other), (logs _).atTag]

end Calls

end TagWire.UnknownSet
