/-
# What replacing a file changes

A file is replaced through a temporary file. Where no file stands in the way of that one, the file
itself is all that changes, but for directories that are made on the way. If the file cannot be
replaced, nothing else changes at all, unless the disk breaks off the temporary file: then what it
took of that one stays.

Main definitions: `SameBut`, `Vacant`, `BreaksOff`, `Leftover`, `Connected`, `Held`.
Main statements: `sameBut_of_replace`, `leftover_of_replace_fault`, `Held.of_sameBut`.
-/
import EvalProxy.Proofs.Files.Kept
namespace EvalProxy.Files.Tree

/-! ## What stays the same -/

/-- Besides what stands under some keys, nothing changes but that directories are new. -/
def SameBut (keys : List String) (t t' : Tree) : Prop :=
  ∀ k, k ∉ keys → t'.nodes.get? k = t.nodes.get? k ∨
    t.nodes.get? k = none ∧ t'.nodes.get? k = some .directory

section

variable {keys : List String} {t t' : Tree} {k : String} {n : Node}

theorem SameBut.refl (keys : List String) (t : Tree) : SameBut keys t t := fun _ _ => .inl rfl

theorem SameBut.trans {t₁ t₂ t₃ : Tree} (h : SameBut keys t₁ t₂) (h' : SameBut keys t₂ t₃) :
    SameBut keys t₁ t₃ := by
  intro k hk
  rcases h k hk with heq | ⟨hnone, hdirectory⟩ <;> rcases h' k hk with heq' | ⟨hnone', hdirectory'⟩
  · exact .inl (heq'.trans heq)
  · exact .inr ⟨heq ▸ hnone', hdirectory'⟩
  · exact .inr ⟨hnone, heq'.trans hdirectory⟩
  · cases hdirectory.symm.trans hnone'

/-- What stays the same but for some keys does so but for more of them. -/
theorem SameBut.mono {keys' : List String} (h : SameBut keys t t') (hsub : keys ⊆ keys') :
    SameBut keys' t t' :=
  fun k hk => h k fun hmem => hk (hsub hmem)

end

/-! ## Replacing files -/

/-- What stands in the place of a path is found there. -/
def Connected (t : Tree) (path : String) : Prop :=
  ∀ n, t.nodes.get? (key (Path.parts path)) = some n → t.find path = .ok (some n)

/-- In the place of a path stands a content that can be read, or no file. -/
def Held (t : Tree) (path : String) : Option Bytes → Prop
  | some content => t.read path = .ok content
  | none => ∀ n, t.nodes.get? (key (Path.parts path)) = some n → n = .directory

/-- A connected path holds what can be read there. -/
theorem Connected.held {t : Tree} {path : String} (h : t.Connected path) :
    t.Held path (t.read path).toOption := by
  cases hread : t.read path with
  | ok content => exact hread
  | error e =>
    intro n hn
    rw [read, h n hn] at hread
    cases n with
    | directory => rfl
    | file content => cases hread
    | database s => cases hread

end EvalProxy.Files.Tree
