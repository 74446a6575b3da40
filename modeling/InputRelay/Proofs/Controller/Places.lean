import InputRelay.Proofs.Controller.Keying
import Mathlib.Algebra.Order.Group.Multiset

namespace InputRelay

inductive SlotRequest
  | call (c : SlotCall)
  | contains (id : ControllerId)
deriving DecidableEq

inductive SlotAnswer
  | slot (i : ℕ)
  | refused (e : SlotError)
  | known (b : Bool)
deriving DecidableEq

structure SlotRecord where
  request : SlotRequest
  answer : SlotAnswer
deriving DecidableEq

namespace SlotRecord

def inserted : SlotRecord → Multiset ControllerId
  | ⟨.call (.insert id), .slot _⟩ => {id}
  | _ => 0

def erased : SlotRecord → Multiset ControllerId
  | ⟨.call (.erase id), .slot _⟩ => {id}
  | _ => 0

/-- What is in slot `i` afterwards. Only an answer with this index concerns the slot. -/
def place (i : ℕ) (cell : Option ControllerId) : SlotRecord → Option ControllerId
  | ⟨.call (.insert id), .slot j⟩ => if j = i then some id else cell
  | ⟨.call (.erase _), .slot j⟩ => if j = i then none else cell
  | _ => cell

end SlotRecord

namespace ControllerSlots

def serve (s : ControllerSlots) : SlotRequest → SlotAnswer × ControllerSlots
  | .call c =>
    match s.call c with
    | .ok (i, s') => (.slot i, s')
    | .error e => (.refused e, s)
  | .contains id => (.known (s.contains id), s)

def serveAll (s : ControllerSlots) : List SlotRequest → List SlotRecord × ControllerSlots
  | [] => ([], s)
  | request :: requests =>
    let (answer, s) := s.serve request
    let (log, s) := s.serveAll requests
    (⟨request, answer⟩ :: log, s)

def inserted (log : List SlotRecord) : Multiset ControllerId :=
  (log.map (·.inserted)).sum

def erased (log : List SlotRecord) : Multiset ControllerId :=
  (log.map (·.erased)).sum

/-- The controller that was put into slot `i` last and not taken out again. -/
def placed (log : List SlotRecord) (i : ℕ) : Option ControllerId :=
  log.foldl (SlotRecord.place i) none

/-- What is to be answered, and what becomes of the slots, when some controllers are stored. -/
inductive Prescribed (s : ControllerSlots) (stored : Multiset ControllerId) :
    SlotRequest → SlotAnswer × ControllerSlots → Prop
  | insert (id : ControllerId) {i : ℕ} : stored.card < 16 → s.IsFirst i none →
      Prescribed s stored (.call (.insert id)) (.slot i, s.set i (some id))
  | full (id : ControllerId) : stored.card = 16 →
      Prescribed s stored (.call (.insert id)) (.refused .capacityExceeded, s)
  | erase (id : ControllerId) {i : ℕ} : id ∈ stored → s.IsFirst i (some id) →
      Prescribed s stored (.call (.erase id)) (.slot i, s.set i none)
  | missing (id : ControllerId) : id ∉ stored →
      Prescribed s stored (.call (.erase id)) (.refused (.notFound id), s)
  | contains (id : ControllerId) : Prescribed s stored (.contains id) (.known (id ∈ stored), s)

variable (s : ControllerSlots)

theorem size_eq : s.size = s.ids.length := by
  rw [size, ids, List.reduceOption_length_eq, List.countP_eq_length_filter]

theorem prescribed_serve (request : SlotRequest) :
    s.Prescribed s.ids request (s.serve request) := by
  cases request with
  | contains id =>
    have hknown : s.contains id = decide (id ∈ (s.ids : Multiset ControllerId)) :=
      Bool.eq_iff_iff.mpr (s.contains_iff.trans decide_eq_true_iff.symm)
    rw [serve, hknown]
    exact .contains id
  | call c =>
    cases c with
    | insert id =>
      rcases s.insert_cases id with ⟨hfull, h⟩ | ⟨i, hfree, hi, h⟩ <;> simp only [serve, call, h]
      · exact .full id hfull
      · exact .insert id hfree hi
    | erase id =>
      rcases s.erase_cases id with ⟨hmem, h⟩ | ⟨i, hmem, hi, h⟩ <;> simp only [serve, call, h]
      · exact .missing id hmem
      · exact .erase id hmem hi

section Step

variable {s : ControllerSlots} {stored : Multiset ControllerId} {request : SlotRequest}
  {reply : SlotAnswer × ControllerSlots}

theorem Prescribed.ids_add (h : s.Prescribed stored request reply) :
    (reply.2.ids : Multiset ControllerId) + SlotRecord.erased ⟨request, reply.1⟩ =
      s.ids + SlotRecord.inserted ⟨request, reply.1⟩ := by
  cases h with
  | insert id hfree hfirst =>
    have hperm := Multiset.coe_eq_coe.mpr (hfirst.perm_insert id)
    rw [← Multiset.cons_coe, ← Multiset.singleton_add, add_comm] at hperm
    exact (add_zero _).trans hperm
  | erase id hmem hfirst =>
    have hperm := Multiset.coe_eq_coe.mpr hfirst.perm_erase
    rw [← Multiset.cons_coe, ← Multiset.singleton_add, add_comm] at hperm
    exact hperm.symm.trans (add_zero _).symm
  | full | missing | contains => rfl

theorem IsFirst.join_getElem?_set {i : ℕ} {old : Option ControllerId} (h : s.IsFirst i old)
    (cell : Option ControllerId) (j : ℕ) :
    (s.set i cell).cells[j]?.join = if i = j then cell else s.cells[j]?.join := by
  have hlt := (List.getElem?_eq_some_iff.mp h.1).1
  rw [set, List.getElem?_set, if_pos hlt]
  split <;> rfl

/-- An answer leaves all slots alone but the one that it names. -/
theorem Prescribed.cell_eq (h : s.Prescribed stored request reply) (i : ℕ) :
    reply.2.cells[i]?.join = SlotRecord.place i s.cells[i]?.join ⟨request, reply.1⟩ := by
  cases h with
  | insert id hfree hfirst => exact hfirst.join_getElem?_set _ i
  | erase id hmem hfirst => exact hfirst.join_getElem?_set _ i
  | full | missing | contains => rfl

end Step

theorem ids_serveAll (requests : List SlotRequest) :
    ((s.serveAll requests).2.ids : Multiset ControllerId) + erased (s.serveAll requests).1 =
      s.ids + inserted (s.serveAll requests).1 := by
  induction requests generalizing s with
  | nil => rfl
  | cons request requests ih =>
    have hstep := (s.prescribed_serve request).ids_add
    have hrest := ih (s.serve request).2
    simp only [serveAll, inserted, erased, List.map_cons, List.sum_cons] at hrest ⊢
    rw [add_left_comm, hrest, ← add_assoc, add_comm (SlotRecord.erased _), hstep, add_assoc]

theorem cells_serveAll (requests : List SlotRequest) (i : ℕ) :
    (s.serveAll requests).2.cells[i]?.join =
      (s.serveAll requests).1.foldl (SlotRecord.place i) s.cells[i]?.join := by
  induction requests generalizing s with
  | nil => rfl
  | cons request requests ih =>
    have hstep := (s.prescribed_serve request).cell_eq i
    simp only [serveAll, List.foldl_cons]
    rw [ih, hstep]

/-- The slots hold the controllers that were inserted and not erased, each one where it was put, and
every request is answered by them. -/
theorem slots_hold_multiset (requests : List SlotRequest) :
    let log := (empty.serveAll requests).1
    let s := (empty.serveAll requests).2
    let stored := inserted log - erased log
    s.ids = stored ∧ erased log ≤ inserted log ∧ s.size = stored.card ∧ s.size ≤ 16 ∧
      (∀ request, s.Prescribed stored request (s.serve request)) ∧
      ∀ i, s.cells[i]?.join = placed log i := by
  intro log s stored
  have hids : (s.ids : Multiset ControllerId) + erased log = inserted log := by
    have hids := empty.ids_serveAll requests
    rwa [show empty.ids = [] by decide, Multiset.coe_nil, zero_add] at hids
  have hstored : (s.ids : Multiset ControllerId) = stored :=
    eq_tsub_of_add_eq hids
  refine ⟨hstored, ?_, ?_, ?_, ?_, ?_⟩
  · exact hids ▸ Multiset.le_add_left _ _
  · rw [← hstored, size_eq, Multiset.coe_card]
  · exact s.size_eq ▸ s.length_ids_le
  · exact hstored ▸ s.prescribed_serve
  · intro i
    have hnone : empty.cells[i]?.join = none := by
      cases h : empty.cells[i]? with
      | none => rfl
      | some cell => exact List.eq_of_mem_replicate (List.mem_of_getElem? h)
    have hcells := empty.cells_serveAll requests i
    rwa [hnone] at hcells

example : (empty.serveAll [.call (.insert ⟨7⟩), .call (.insert ⟨7⟩), .call (.erase ⟨7⟩),
    .contains ⟨7⟩, .call (.insert ⟨8⟩), .call (.erase ⟨9⟩)]).1.map (·.answer) =
      [.slot 0, .slot 1, .slot 0, .known true, .slot 0, .refused (.notFound ⟨9⟩)] := by decide

end ControllerSlots

end InputRelay
