import InputRelay.Proofs.Json.Members
import InputRelay.Proofs.Json.Numeral
import InputRelay.Proofs.Json.Reading
import InputRelay.Proofs.Named

namespace InputRelay

open Json

/-- A value is what its representation in JSON stands for. -/
class Form.Lossless (α : Type) [Form α] : Prop where
  ofJson?_toJson (a : α) : Form.ofJson? (Form.toJson a) = some a

namespace Json

theorem int?_ofInt {low high i : ℤ} (hlow : low ≤ i) (hhigh : i ≤ high) :
    (ofInt i).int? low high = some i := by
  rw [ofInt, int?, Numeral.toInt?_ofInt, Option.filter_some, decide_eq_true hlow,
    decide_eq_true hhigh]
  rfl

theorem nat?_ofInt {limit n : ℕ} (h : n < limit) : (ofInt n).nat? limit = some n := by
  rw [nat?, int?_ofInt (by omega) (by omega), Option.map_some, Int.toNat_natCast]

@[simp] theorem record?_record {members : List (String × Json)} {names : List String}
    (hnames : members.map Prod.fst = names) (hnodup : names.Nodup) :
    (record members).record? names = some (members.map Prod.snd) := by
  subst hnames
  have hparts : HasParts (members.map fun m ↦ (m.1, some m.2)) (record members) := by
    refine ⟨_, rfl, List.Perm.of_eq ?_⟩
    rw [membersOf, List.flatMap_map]
    exact List.map_eq_flatMap
  have hfst : (members.map fun m ↦ (m.1, some m.2)).map Prod.fst = members.map Prod.fst := by simp
  have hmembers := hparts.members? (hfst ▸ hnodup) (members.map Prod.fst).length
  rw [hfst] at hmembers
  rw [record?, hmembers, Option.bind_eq_bind, Option.bind_some]
  apply mapM_of_forall₂
  simp [List.forall₂_map_left_iff, List.forall₂_map_right_iff, List.forall₂_same]

@[simp] theorem alternative?_alternative (name : String) (v : Json) :
    (alternative name v).alternative? = some (name, some v) := by
  rw [alternative, alternative?]

@[simp] theorem name?_text (name : String) : (text name).name? = some name :=
  rfl

end Json

namespace Form

attribute [simp] Lossless.ofJson?_toJson

instance : Lossless Bool where
  ofJson?_toJson _ := rfl

instance : Lossless String where
  ofJson?_toJson _ := rfl

instance : Lossless Int32 where
  ofJson?_toJson i := by
    change Option.map Int32.ofInt (int? _ _ (ofInt i.toInt)) = some i
    rw [int?_ofInt i.minValue_le_toInt i.toInt_le, Option.map_some, Int32.ofInt_toInt]

instance : Lossless Int16 where
  ofJson?_toJson i := by
    change Option.map Int16.ofInt (int? _ _ (ofInt i.toInt)) = some i
    rw [int?_ofInt i.minValue_le_toInt i.toInt_le, Option.map_some, Int16.ofInt_toInt]

instance : Lossless UInt8 where
  ofJson?_toJson n := by
    change Option.map UInt8.ofNat (nat? _ (ofInt n.toNat)) = some n
    rw [nat?_ofInt n.toNat_lt_size, Option.map_some, UInt8.ofNat_toNat]

instance : Lossless UInt32 where
  ofJson?_toJson n := by
    change Option.map UInt32.ofNat (nat? _ (ofInt n.toNat)) = some n
    rw [nat?_ofInt n.toNat_lt_size, Option.map_some, UInt32.ofNat_toNat]

instance : Lossless UInt64 where
  ofJson?_toJson n := by
    change Option.map UInt64.ofNat (nat? _ (ofInt n.toNat)) = some n
    rw [nat?_ofInt n.toNat_lt_size, Option.map_some, UInt64.ofNat_toNat]

instance {α : Type} [Named α] [Named.Lawful α] : Lossless α where
  ofJson?_toJson a := by
    change ((text (Named.name a)).name?.bind Named.ofName?) = some a
    rw [name?_text, Option.bind_some, Named.Lawful.ofName?_name]

variable {α : Type} [Form α]

def RoundTrips (α : Type) [Form α] : Prop :=
  ∀ a : α, read? (write a) = some a

theorem read?_write_of_ofJson? {a : α} (h : ofJson? (toJson a) = some a) :
    read? (write a) = some a := by
  rw [read?, write, String.toList_ofList, Json.read_write, Option.bind_some, h]

theorem Lossless.roundTrips [Lossless α] : RoundTrips α :=
  fun a ↦ read?_write_of_ofJson? (ofJson?_toJson a)

end Form

end InputRelay
