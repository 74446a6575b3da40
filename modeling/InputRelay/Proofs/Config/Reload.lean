import InputRelay.Proofs.Config.Kept

namespace InputRelay

namespace Config

theorem keptSections_all (c : Config) :
    c.keptSections (fun _ ↦ true) (fun _ ↦ true) = c.sections := by
  cases h : c.gamepad.touchmap <;>
    simp [keptSections, keptSettings, Table.keys, Key.assignment?, Key.setting?, Key.name,
      Table.path, sections, h]

/-- A configuration is loaded from the text that it was written as. -/
theorem load_written (c : Config) {disk : Disk} {path : String}
    (h : disk.read path = .ok c.toToml) : load disk path = .ok c := by
  rw [toToml, ← keptSections_all] at h
  exact load_keptSections (fun _ _ _ ↦ rfl) h

def quoted : Config where
  gamepad := { touchmap := some "it's a \"map\"\\" }
  log := { level := "\n'''trace\"\"" }

theorem load_written_quoted :
    let tree := FileTree.ofFiles [("config.toml", .file quoted.toToml.toUTF8)]
    tree.disk.read "config.toml" = .ok quoted.toToml ∧
      load tree.disk "config.toml" = .ok quoted :=
  ⟨FileTree.read_of_find rfl, quoted.load_written (FileTree.read_of_find rfl)⟩

end Config

end InputRelay
