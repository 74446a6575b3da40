import InputRelay.Proofs.Toml.Survey
import Mathlib.Data.List.Pairwise

namespace InputRelay.Toml

namespace Value

/-- The value at a path of keys, each in the table that the last one led to. -/
def at? : List String → Value → Option Value
  | [], v => some v
  | k :: ks, table entries => (entries.lookup k).bind (at? ks)
  | _ :: _, _ => none

theorem at?_append (path path' : List String) (v : Value) :
    v.at? (path ++ path') = (v.at? path).bind (at? path') := by
  induction path generalizing v with
  | nil => rfl
  | cons k path ih =>
    cases v with
    | table entries =>
      rw [List.cons_append, at?, at?]
      cases entries.lookup k with
      | none => rfl
      | some w => exact ih w
    | _ => rfl

def IsSection (v : Option Value) : Prop :=
  ∀ w ∈ v, ∃ entries, w = table entries

end Value

open Value

theorem lookup_entryValues (k : String) (es : Entries) :
    (entryValues es).lookup k = (es.lookup k).map Node.value := by
  induction es with
  | nil => rfl
  | cons e es ih =>
    obtain ⟨k', n⟩ := e
    rw [entryValues, List.lookup_cons, List.lookup_cons, ih]
    cases k == k' <;> rfl

theorem at?_entryValues (k : String) (ks : List String) (es : Entries) :
    (table (entryValues es)).at? (k :: ks) = (es.lookup k).bind fun n ↦ n.value.at? ks := by
  rw [at?, lookup_entryValues]
  cases es.lookup k <;> rfl

/-- No list of tables stands on the way to a path. -/
def Entries.Listless (es : Entries) (q : List String) : Prop :=
  ∀ p, p ≠ [] → p <+: q → es.role? p ≠ some .list

theorem Entries.listless_cons {es : Entries} {k : String} {q : List String} {n : Node}
    (hlookup : es.lookup k = some n) :
    es.Listless (k :: q) ↔ n.role ≠ .list ∧ n.entries.Listless q := by
  constructor
  · refine fun h ↦ ⟨fun hlist ↦ h [k] (List.cons_ne_nil _ _) (List.prefix_append [k] q) ?_,
      fun p hp hpath hlist ↦ h (k :: p) (List.cons_ne_nil _ _)
        (List.cons_prefix_cons.mpr ⟨rfl, hpath⟩) ?_⟩
    · rw [role?_cons, hlookup, Option.bind_some, if_pos rfl, hlist]
    · rw [role?_cons, hlookup, Option.bind_some, if_neg hp, hlist]
  · rintro ⟨hrole, h⟩ p hp hpath hlist
    obtain ⟨k', p, rfl⟩ := List.exists_cons_of_ne_nil hp
    obtain ⟨rfl, hbelow⟩ := List.cons_prefix_cons.mp hpath
    rw [role?_cons, hlookup, Option.bind_some] at hlist
    by_cases hnil : p = []
    · rw [if_pos hnil] at hlist
      exact hrole (Option.some.inj hlist)
    · rw [if_neg hnil] at hlist
      exact h p hnil hbelow hlist

/-- Where a path leads in a tree. Where it leads into a value, the rest of it is the value's. -/
inductive Arrives (es : Entries) (q : List String) : Prop
  | value {d r : List String} {v : Value} (hd : d ≠ []) (hpath : q = d ++ r)
      (hlists : es.Listless d) (hrole : es.role? d = some (.value v))
      (hat : (table (entryValues es)).at? q = v.at? r)
  | nowhere (hat : (table (entryValues es)).at? q = none)
  | table {origin : Origin} {entries : List (String × Value)}
      (hrole : es.role? q = some (.table origin))
      (hat : (table (entryValues es)).at? q = some (table entries))
  | list (hrole : es.role? q = some .list)

theorem Arrives.cons {es inner : Entries} {k : String} {ks : List String} {origin : Origin}
    (hlookup : es.lookup k = some (.table origin inner)) (hks : ks ≠ []) (h : Arrives inner ks) :
    Arrives es (k :: ks) := by
  have hrole : ∀ q, q ≠ [] → es.role? (k :: q) = inner.role? q := by
    intro q hq
    rw [Entries.role?_cons, hlookup, Option.bind_some, if_neg hq]
    rfl
  have hat : (Value.table (entryValues es)).at? (k :: ks) =
      (Value.table (entryValues inner)).at? ks := by
    rw [at?_entryValues, hlookup]
    rfl
  cases h with
  | value hd hpath hlists hvalue hinner =>
    refine .value (List.cons_ne_nil _ _) (congrArg (k :: ·) hpath) ?_ ((hrole _ hd).trans hvalue)
      (hat.trans hinner)
    exact (Entries.listless_cons hlookup).mpr ⟨nofun, hlists⟩
  | nowhere hinner => exact .nowhere (hat.trans hinner)
  | table htable hinner => exact .table ((hrole ks hks).trans htable) (hat.trans hinner)
  | list hlist => exact .list ((hrole ks hks).trans hlist)

theorem arrives {q : List String} (hq : q ≠ []) (es : Entries) : Arrives es q := by
  induction q generalizing es with
  | nil => exact absurd rfl hq
  | cons k ks ih =>
    have hat := at?_entryValues k ks es
    have hrole := Entries.role?_cons k ks es
    cases hlookup : es.lookup k with
    | none => exact .nowhere (by rw [hat, hlookup, Option.bind_none])
    | some n =>
      rw [hlookup, Option.bind_some] at hat hrole
      cases n with
      | leaf v =>
        have hvalue : es.role? [k] = some (.value v) := by
          rw [Entries.role?_cons, hlookup]
          rfl
        refine .value (d := [k]) (List.cons_ne_nil _ _) rfl ?_ hvalue hat
        refine (Entries.listless_cons hlookup).mpr ⟨nofun, fun p hp hpath ↦ ?_⟩
        exact absurd (List.prefix_nil.mp hpath) hp
      | table origin inner =>
        by_cases hks : ks = []
        · subst hks
          exact .table hrole hat
        · exact .cons hlookup hks (ih hks inner)
      | list tables =>
        by_cases hks : ks = []
        · subst hks
          exact .list hrole
        · obtain ⟨k', ks, rfl⟩ := List.exists_cons_of_ne_nil hks
          exact .nowhere hat

theorem at?_value {q : List String} (hq : q ≠ []) {es : Entries} {v : Value}
    (hlists : es.Listless q) (h : es.role? q = some (.value v)) (r : List String) :
    (table (entryValues es)).at? (q ++ r) = v.at? r := by
  induction q generalizing es with
  | nil => exact absurd rfl hq
  | cons k q ih =>
    rw [Entries.role?_cons] at h
    obtain ⟨n, hlookup, hn⟩ := Option.bind_eq_some_iff.mp h
    obtain ⟨hlist, hnext⟩ := (Entries.listless_cons hlookup).mp hlists
    rw [List.cons_append, at?_entryValues, hlookup, Option.bind_some]
    cases n with
    | leaf w =>
      split at hn
      · rename_i hnil
        cases hn
        rw [hnil]
        rfl
      · rename_i hne
        obtain ⟨k', q, rfl⟩ := List.exists_cons_of_ne_nil hne
        cases hn
    | table origin inner =>
      split at hn
      · cases hn
      · rename_i hne
        exact ih hne hnext hn
    | list tables => exact absurd rfl hlist

namespace Survey

/-- A value is assigned at a path, or inside of a value that is assigned on the way to it. -/
def Assigns (s : Survey) (path : List String) (v : Value) : Prop :=
  ∃ d r table keys w, d ≠ [] ∧ .value table keys w ∈ s.mentions ∧ table ++ plain keys = plain d ∧
    path = d ++ r ∧ w.at? r = some v

/-- Neither a header nor a key leads through a path, and no value on the way to it has anything
there. -/
structure Omits (s : Survey) (path : List String) : Prop where
  mentions : ∀ m ∈ s.mentions, ¬path <+: m.place.map Prod.fst
  values : ∀ d r table keys w, .value table keys w ∈ s.mentions → table ++ plain keys = plain d →
    path = d ++ r → w.at? r = none

/-- A path is not that of a list, and a value on the way to it has a table there, if anything. -/
structure HasSection (s : Survey) (path : List String) : Prop where
  lists : ∀ i ∈ s.items, i.1.map Prod.fst ++ [i.2] ≠ path
  values : ∀ d r table keys w, .value table keys w ∈ s.mentions → table ++ plain keys = plain d →
    path = d ++ r → IsSection (w.at? r)

variable {s : Survey} {o : Outline} {path q : List String} {v : Value}

theorem omits_of_apart (hbelow : ∀ m ∈ s.mentions, ¬path <+: m.place.map Prod.fst)
    (habove : ∀ m ∈ s.mentions, m.isValue = true → ¬m.place.map Prod.fst <+: path) :
    s.Omits path where
  mentions := hbelow
  values d r table keys w hm hplace hpath := by
    refine absurd ⟨r, ?_⟩ (habove _ hm rfl)
    rw [Mention.place, hplace, map_fst_plain, hpath]

theorem hasSection_of_apart (hitems : s.items = [])
    (habove : ∀ m ∈ s.mentions, m.isValue = true → ¬m.place.map Prod.fst <+: path) :
    s.HasSection path where
  lists := by simp [hitems]
  values d r table keys w hm hplace hpath := by
    refine absurd ⟨r, ?_⟩ (habove _ hm rfl)
    rw [Mention.place, hplace, map_fst_plain, hpath]

theorem Tells.locate_eq_plain (h : s.Tells o)
    (hlists : o.entries.Listless q) : s.locate q = plain q := by
  induction q using List.reverseRecOn with
  | nil => rfl
  | append_singleton q k ih =>
    have hq := ih fun p hp hpath ↦ hlists p hp (hpath.trans (List.prefix_append _ _))
    have hfresh : (s.locate q, k) ∉ s.items := fun hmem ↦
      hlists _ (List.concat_ne_nil _ _) List.prefix_rfl (h.lists q k hmem)
    rw [locate_concat, List.count_eq_zero_of_not_mem hfresh, hq, plain, plain, List.map_append]
    rfl

theorem Tells.listless (h : s.Tells o) (hplain : ∀ {p}, p <+: q → s.locate p = plain p) :
    o.entries.Listless q := by
  intro p hp hpath hlist
  obtain ⟨-, y, k, n, heq⟩ := h.shows_some hp hlist
  have hnumber : (k, n + 1) ∈ plain p := by
    rw [← hplain hpath, heq]
    exact List.mem_concat_self
  obtain ⟨_, -, hzero⟩ := List.mem_map.mp hnumber
  cases hzero

theorem Tells.mention_of_value (h : s.Tells o) (hq : q ≠ [])
    (hlists : o.entries.Listless q) (hrole : o.entries.role? q = some (.value v)) :
    ∃ table keys, .value table keys v ∈ s.mentions ∧ table ++ plain keys = plain q := by
  obtain ⟨table, keys, hm, hplace⟩ := h.shows_some hq hrole
  exact ⟨table, keys, hm, by rw [← hplace, h.locate_eq_plain hlists]⟩

theorem Tells.at?_eq_none (h : s.Tells o) (hpath : path ≠ []) (homits : s.Omits path) :
    o.value.at? path = none := by
  have hrole : ∀ r, o.entries.role? path ≠ some r := by
    intro r hr
    obtain ⟨m, hm, hle⟩ := (h.shows_some hpath hr).exists_mention
    have hnames := hle.map Prod.fst
    rw [map_fst_locate] at hnames
    exact homits.mentions m hm hnames
  cases arrives hpath o.entries with
  | value hd heq hlists hvalue hat =>
    obtain ⟨table, keys, hm, hplace⟩ := h.mention_of_value hd hlists hvalue
    exact hat.trans (homits.values _ _ table keys _ hm hplace heq)
  | nowhere hat => exact hat
  | table htable => exact absurd htable (hrole _)
  | list hlist => exact absurd hlist (hrole _)

theorem Tells.isSection (h : s.Tells o) (hpath : path ≠ []) (hsection : s.HasSection path) :
    IsSection (o.value.at? path) := by
  cases arrives hpath o.entries with
  | value hd heq hlists hvalue hat =>
    obtain ⟨table, keys, hm, hplace⟩ := h.mention_of_value hd hlists hvalue
    have hinner := hsection.values _ _ table keys _ hm hplace heq
    rwa [← hat] at hinner
  | nowhere hat =>
    intro w hw
    cases hat.symm.trans hw
  | table _ hat =>
    intro w hw
    exact ⟨_, Option.some.inj (hw.symm.trans hat)⟩
  | list hlist =>
    obtain ⟨-, p, k, n, hplace⟩ := h.shows_some hpath hlist
    have hnumber : n + 1 = s.items.count (p, k) := by
      refine number_eq (p := path) ?_
      rw [hplace]
    have hmem : (p, k) ∈ s.items := List.count_pos_iff.mp (by omega)
    refine absurd ?_ (hsection.lists _ hmem)
    rw [← s.map_fst_locate path, hplace, List.map_append]
    rfl

theorem Valid.agrees_or (hvalid : s.Valid) {m m' : Mention} (hm : m ∈ s.mentions)
    (hm' : m' ∈ s.mentions) : m = m' ∨ m.Agrees m' ∨ m'.Agrees m := by
  have hpair : s.mentions.Pairwise fun m m' ↦ m = m' ∨ m.Agrees m' ∨ m'.Agrees m :=
    hvalid.agrees.imp fun hagrees ↦ .inr (.inl hagrees)
  have hsymm : Std.Symm fun m m' : Mention ↦ m = m' ∨ m.Agrees m' ∨ m'.Agrees m :=
    ⟨fun _ _ ↦ Or.imp Eq.symm Or.symm⟩
  exact hpair.forall_of_forall (fun _ _ ↦ .inl rfl) hm hm'

theorem Tells.role_of_value (h : s.Tells o) (hvalid : s.Valid) (hq : q ≠ []) {table : Place}
    {keys : List String} (hm : .value table keys v ∈ s.mentions)
    (hplace : s.locate q = table ++ plain keys) : o.entries.role? q = some (.value v) := by
  have hfirst : table ++ plain (keys.take 1) <+: table ++ plain keys :=
    plain_mono table ⟨_, List.take_append_drop 1 keys⟩
  cases hrole : o.entries.role? q with
  | none =>
    have hshows := hrole ▸ h.shows q hq
    exact absurd (hplace ▸ List.prefix_rfl) (hshows _ hm)
  | some r =>
    have hshows := h.shows_some hq hrole
    rw [hplace] at hshows
    have hheader : ∀ header, .header header ∈ s.mentions → ¬table ++ plain keys <+: header := by
      intro header hm' hle
      rcases hvalid.agrees_or hm hm' with hsame | hbefore | hbehind
      · cases hsame
      · exact hbefore.1 hle
      · exact hbehind (hfirst.trans hle)
    match r, hshows with
    | .value w, ⟨table', keys', hm', heq⟩ =>
      rcases hvalid.agrees_or hm hm' with hsame | hbefore | hbehind
      · cases hsame
        rfl
      · exact absurd (heq ▸ List.prefix_rfl) hbefore.1
      · exact absurd (heq ▸ List.prefix_rfl) hbehind.1
    | .table .header, hm' => exact absurd List.prefix_rfl (hheader _ hm')
    | .list, ⟨hm', _⟩ => exact absurd List.prefix_rfl (hheader _ hm')
    | .table .implied, ⟨header, hm', hle⟩ => exact absurd hle (hheader _ hm')
    | .table .dotted, ⟨table', keys', w, d, hm', hd, hkeys, hshort, heq⟩ =>
      have hle : table ++ plain keys <+: table' ++ plain keys' := heq ▸ plain_mono table' hkeys
      rcases hvalid.agrees_or hm hm' with hsame | hbefore | hbehind
      · cases hsame
        have hlength := congrArg List.length heq
        simp only [List.length_append, plain, List.length_map] at hlength
        exact absurd (hkeys.eq_of_length (by omega)) hshort
      · exact absurd hle hbefore.1
      · exact absurd hle hbehind.2

theorem Tells.at?_of_assigns (h : s.Tells o) (hvalid : s.Valid) (hassigns : s.Assigns path v) :
    o.value.at? path = some v := by
  obtain ⟨d, r, table, keys, w, hd, hm, hplace, rfl, hat⟩ := hassigns
  have hlocate : ∀ {p}, p <+: d → s.locate p = plain p := by
    intro p hp
    have hle : s.locate [] ++ plain p <+: table ++ plain keys := by
      rw [hplace]
      exact hp.map _
    exact hvalid.locate_append hm hle
  have hlists : o.entries.Listless d := h.listless hlocate
  have hrole := h.role_of_value hvalid hd hm (by rw [hlocate List.prefix_rfl, hplace])
  exact (at?_value hd hlists hrole r).trans hat

end Survey

/-- The statements of a valid document make up one that has what they say. -/
theorem exists_assemble {statements : List Statement} (h : (survey statements).Valid) :
    ∃ doc, assemble statements = some doc ∧
      (∀ path v, (survey statements).Assigns path v → doc.at? path = some v) ∧
      (∀ path, path ≠ [] → (survey statements).Omits path → doc.at? path = none) ∧
      ∀ path, path ≠ [] → (survey statements).HasSection path → IsSection (doc.at? path) := by
  obtain ⟨o, hrun, htells⟩ := Survey.tells_nil.run h
  refine ⟨o.value, ?_, fun _ _ ↦ htells.at?_of_assigns h, fun _ ↦ htells.at?_eq_none,
    fun _ ↦ htells.isSection⟩
  rw [assemble, hrun]
  rfl

end InputRelay.Toml
