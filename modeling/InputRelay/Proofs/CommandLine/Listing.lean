import InputRelay.CommandLine.Run
import InputRelay.Proofs.Config.Defaults
import InputRelay.Proofs.Text.Numeral

namespace InputRelay

open Text

theorem Point.description_append_inj {p q : Point} {s t : List Char}
    (h : p.description.toList ++ s = q.description.toList ++ t) : p = q ∧ s = t := by
  simp only [description, String.toList_append, String.reduceToList, List.append_assoc,
    List.cons_append, List.nil_append, List.cons.injEq, true_and] at h
  obtain ⟨hx, h⟩ := numeral_append_inj rfl rfl h
  simp only [List.cons.injEq, true_and] at h
  obtain ⟨hy, h⟩ := numeral_append_inj rfl rfl h
  refine ⟨?_, (List.cons.inj h).2⟩
  cases p
  cases q
  cases Int32.toInt_inj.mp hx
  cases Int32.toInt_inj.mp hy
  rfl

theorem PointerId.description_injective : Function.Injective PointerId.description := by
  intro a b h
  have hdigits := congrArg String.toList h
  rw [description, description, toList_toString, toList_toString] at hdigits
  have hval := digitsOf_injective (by decide) (by decide) hdigits
  cases a
  cases b
  cases UInt64.toNat_inj.mp hval
  rfl

namespace ButtonCode

theorem description_cases (c : ButtonCode) :
    (c = invalid ∧ c.description = "invalid") ∨
      (c ≠ invalid ∧ c.description.toList = digitsOf 10 c.val.toNat) := by
  by_cases hc : c = invalid
  · subst hc
    exact Or.inl ⟨rfl, rfl⟩
  · have hvalid : c.isValid = true := bne_iff_ne.mpr hc
    rw [description, if_pos hvalid, toList_toString]
    exact Or.inr ⟨hc, rfl⟩

theorem description_ne_nil (c : ButtonCode) : c.description.toList ≠ [] := by
  rcases c.description_cases with ⟨-, h⟩ | ⟨-, h⟩ <;> rw [h]
  · decide
  · exact digitsOf_ne_nil _

theorem blank_notMem_description (c : ButtonCode) : ' ' ∉ c.description.toList := by
  rcases c.description_cases with ⟨-, h⟩ | ⟨-, h⟩ <;> rw [h]
  · decide
  · exact notMem_digitsOf (by decide) _

theorem description_injective : Function.Injective description := by
  have hword (n : ℕ) : "invalid".toList ≠ digitsOf 10 n := by
    intro h
    have hmem : 'i' ∈ "invalid".toList := by decide
    exact notMem_digitsOf (by decide) n (h ▸ hmem)
  intro c d h
  rcases c.description_cases with ⟨hc, hc'⟩ | ⟨-, hc'⟩
  · rcases d.description_cases with ⟨hd, -⟩ | ⟨-, hd'⟩
    · rw [hc, hd]
    · rw [← h, hc'] at hd'
      exact absurd hd' (hword _)
  · rcases d.description_cases with ⟨-, hd'⟩ | ⟨-, hd'⟩
    · rw [h, hd'] at hc'
      exact absurd hc' (hword _)
    · rw [h, hd'] at hc'
      have hval := digitsOf_injective (by decide) (by decide) hc'
      cases c
      cases d
      cases UInt8.toNat_inj.mp hval
      rfl

end ButtonCode

namespace Touchmap

theorem toList_walkLine_some (w : WalkControl) : (walkLine (some w)).toList =
    "walk     center=".toList ++ (w.center.description.toList ++ (" radius=".toList ++
      ((toString w.radius.toInt).toList ++ (" finger=".toList ++
        w.finger.description.toList)))) := by
  rw [show walkLine (some w) = "walk     center=" ++ w.center.description ++ " radius=" ++
    toString w.radius.toInt ++ " finger=" ++ w.finger.description from rfl]
  simp only [String.toList_append, List.append_assoc]

theorem walkLine_some_ne_none (w : WalkControl) : walkLine (some w) ≠ walkLine none := by
  intro h
  have h := congrArg String.toList h
  rw [toList_walkLine_some, show walkLine none = "walk     none" from rfl] at h
  simp at h

theorem walkLine_injective : Function.Injective walkLine := by
  intro w w' h
  cases w with
  | none =>
    cases w' with
    | none => rfl
    | some w' => exact absurd h.symm (walkLine_some_ne_none w')
  | some w =>
    cases w' with
    | none => exact absurd h (walkLine_some_ne_none w)
    | some w' =>
      have h := congrArg String.toList h
      rw [toList_walkLine_some, toList_walkLine_some] at h
      obtain ⟨hcenter, h⟩ := Point.description_append_inj (List.append_cancel_left h)
      have h := List.append_cancel_left h
      simp only [String.reduceToList, List.cons_append] at h
      obtain ⟨hradius, h⟩ := numeral_append_inj rfl rfl h
      simp only [List.nil_append, List.cons.injEq, true_and] at h
      cases w
      cases w'
      cases hcenter
      cases Int32.toInt_inj.mp hradius
      cases PointerId.description_injective (String.toList_inj.mp h)
      rfl

/-- The radius ends at the blank that follows it, whether it is as wide as its column or not. -/
theorem kindText_append_inj {k k' : ControlKind} {s t : List Char}
    (h : padRight 18 ' ' (kindText k).toList ++ ' ' :: s =
      padRight 18 ' ' (kindText k').toList ++ ' ' :: t) : k = k' ∧ s = t := by
  have hblank (n : ℕ) (s : List Char) :
      List.replicate n ' ' ++ ' ' :: s = ' ' :: (List.replicate n ' ' ++ s) := by
    induction n with
    | zero => rfl
    | succ n ih => rw [List.replicate_succ, List.cons_append, ih, List.cons_append]
  have hbutton (r : Int32) (s t : List Char) : (kindText (.skill r)).toList ++ s ≠
      (kindText .button).toList ++ t := by
    simp [kindText]
  cases k with
  | button =>
    cases k' with
    | button => exact ⟨rfl, (List.cons.inj (List.append_cancel_left h)).2⟩
    | skill r =>
      rw [padRight, padRight, List.append_assoc, List.append_assoc] at h
      exact absurd h.symm (hbutton r _ _)
  | skill r =>
    cases k' with
    | button =>
      rw [padRight, padRight, List.append_assoc, List.append_assoc] at h
      exact absurd h (hbutton r _ _)
    | skill r' =>
      have hcut := h
      simp only [kindText, padRight, String.toList_append, List.append_assoc, hblank] at hcut
      obtain ⟨hradius, -⟩ := numeral_append_inj rfl rfl (List.append_cancel_left hcut)
      cases Int32.toInt_inj.mp hradius
      exact ⟨rfl, (List.cons.inj (List.append_cancel_left h)).2⟩

theorem controlLine_injective : Function.Injective controlLine := by
  intro c d h
  have h := congrArg String.toList h
  simp only [controlLine, String.toList_append, String.toList_ofList, List.append_assoc] at h
  have h := List.append_cancel_left h
  obtain ⟨hcode, h⟩ := padLeft_append_inj c.code.description_ne_nil
    c.code.blank_notMem_description d.code.description_ne_nil
    d.code.blank_notMem_description h
  obtain ⟨hkind, h⟩ := kindText_append_inj (List.append_cancel_left h)
  obtain ⟨hcenter, h⟩ := Point.description_append_inj (List.append_cancel_left h)
  have hfinger := String.toList_inj.mp (List.append_cancel_left h)
  cases c
  cases d
  cases ButtonCode.description_injective (String.toList_inj.mp hcode)
  cases hkind
  cases hcenter
  cases PointerId.description_injective hfinger
  rfl

theorem listing_injective : Function.Injective listing := by
  intro m m' h
  obtain ⟨hwalk, h⟩ := List.cons.inj h
  obtain ⟨hcontrols, -⟩ := List.append_inj' h rfl
  cases m
  cases m'
  cases walkLine_injective hwalk
  cases List.map_injective_iff.mpr controlLine_injective hcontrols
  rfl

end Touchmap

namespace CommandLine

/-- A check that finds its configuration ends well exactly if the touchmap is read, and what it
prints then tells the touchmap from every other one. -/
theorem check_hides_nothing (disk : Disk) (defaultPath : String) :
    (∀ (args : List String) (named : Option String) (file : String) (config : Config),
      Invocation.read args = .ok ⟨named, .check file⟩ →
      Config.loadOrDefault disk (named.getD defaultPath) = .ok config →
        ((run disk defaultPath args).exitCode = 0 ↔ ∃ map, Touchmap.ofFile disk file = .ok map) ∧
        ∀ map, Touchmap.ofFile disk file = .ok map →
          run disk defaultPath args = .printed (Touchmap.walkLine map.walk ::
            map.controls.map Touchmap.controlLine ++
              [toString map.controls.length ++ " control(s)"])) ∧
    ∀ map map' : Touchmap,
      Outcome.printed map.listing = Outcome.printed map'.listing → map = map' := by
  constructor
  · intro args named file config hargs hconfig
    cases hfile : Touchmap.ofFile disk file with
    | error e =>
      have hrun : run disk defaultPath args = .failed (.touchmap file e) := by
        simp only [run, hargs, Invocation.run, hconfig, hfile]
      rw [hrun]
      have hfailed : (Outcome.failed (.touchmap file e)).exitCode ≠ 0 :=
        show (1 : UInt8) ≠ 0 by decide
      refine ⟨iff_of_false hfailed ?_, ?_⟩
      · rintro ⟨map, ⟨⟩⟩
      · rintro map ⟨⟩
    | ok map =>
      have hrun : run disk defaultPath args = .printed map.listing := by
        simp only [run, hargs, Invocation.run, hconfig, hfile]
      rw [hrun]
      refine ⟨iff_of_true rfl ⟨map, rfl⟩, ?_⟩
      rintro map ⟨⟩
      rfl
  · intro map map' h
    exact Touchmap.listing_injective (Outcome.printed.inj h)

def skillText : String :=
  "\x7b\"mappings\":\x7b\"walk_control\":\x7b\"center\":\x7b\"x\":300,\"y\":-800\x7d," ++
    "\"radius\":150\x7d,\"skill_casting\":[\x7b\"center\":\x7b\"x\":3,\"y\":4\x7d," ++
    "\"radius\":80,\"button\":\"L2\"\x7d]\x7d\x7d"

theorem check_hides_nothing_skill :
    let disk := (FileTree.ofFiles [("map.json", .file skillText.toUTF8)]).disk
    let args := ["-c", "other.toml", "check", "map.json"]
    let map : Touchmap :=
      ⟨some ⟨⟨300, -800⟩, 150, ⟨100⟩⟩, [⟨⟨25⟩, ⟨3, 4⟩, .skill 80, ⟨101⟩⟩]⟩
    let lines := ["walk     center=(300, -800) radius=150 finger=100",
      "code  25  skill radius=80    center=(3, 4) finger=101", "1 control(s)"]
    Invocation.read args = .ok ⟨some "other.toml", .check "map.json"⟩ ∧
      Config.loadOrDefault disk "other.toml" = .ok {} ∧
      Touchmap.ofFile disk "map.json" = .ok map ∧
      (run disk "config.toml" args).exitCode = 0 ∧
      run disk "config.toml" args = .printed lines ∧
      ∀ map' : Touchmap, map'.listing = lines → map' = map := by
  intro disk args map lines
  have hargs : Invocation.read args = .ok ⟨some "other.toml", .check "map.json"⟩ := rfl
  have hmissing : disk.read "other.toml" = .error .notFound := rfl
  have hconfig : Config.loadOrDefault disk "other.toml" = .ok {} := by
    rw [Config.loadOrDefault, hmissing]
    rfl
  have hread : disk.read "map.json" = .ok skillText := FileTree.read_of_find rfl
  have hmap : Touchmap.ofFile disk "map.json" = .ok map := by
    rw [Touchmap.ofFile, hread]
    decide +kernel
  have hlines : map.listing = lines := by decide
  obtain ⟨hcheck, htells⟩ := check_hides_nothing disk "config.toml"
  obtain ⟨hcode, hprinted⟩ := hcheck args _ _ _ hargs hconfig
  refine ⟨hargs, hconfig, hmap, hcode.mpr ⟨map, hmap⟩, ?_, ?_⟩
  · rw [hprinted map hmap, ← hlines]
    rfl
  · intro map' h
    exact htells map' map (congrArg Outcome.printed (h.trans hlines.symm))

end CommandLine

end InputRelay
