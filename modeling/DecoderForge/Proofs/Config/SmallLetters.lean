import DecoderForge.Config.Layers
import DecoderForge.Proofs.Result
import DecoderForge.Proofs.Text.Case

/-!
# DecoderForge — layers in small letters

Layers are laid over each other name by name, and each name is made small on the way.  What they form so has
every name once and in small letters, except inside lists, which are taken as they stand.

## The architecture

* **`Toml.InSmallLetters`** — tables within tables that have each name once and in small letters.
* **`Layers.lay_inSmallLetters`** — the step: one value laid over another.
* **`Layers.layers_inSmallLetters`** — the run: all files and the environment.
-/

namespace DecoderForge

namespace Toml

/-- A text in small letters stays as it is. -/
theorem lowerCased_lowerCased (s : String) : lowerCased (lowerCased s) = lowerCased s := by
  simp only [lowerCased, String.toList_ofList, Text.lowerCased_lowerCased]

mutual

/-- Whether tables have each name once and in small letters, all the way down to a list. -/
def InSmallLetters : Toml → Prop
  | .table members => MembersInSmallLetters members
  | _ => True

/-- Whether members do, and the tables in them. -/
def MembersInSmallLetters : List (String × Toml) → Prop
  | [] => True
  | (name, v) :: rest =>
    (lowerCased name = name ∧ name ∉ rest.map Prod.fst) ∧ InSmallLetters v ∧ MembersInSmallLetters rest

end

/-- The values of members in small letters are so too. -/
theorem MembersInSmallLetters.lookup {name : String} {v : Toml} :
    ∀ {members : Members}, MembersInSmallLetters members → members.lookup name = some v → InSmallLetters v
  | (k, w) :: rest, ⟨_, hw, hrest⟩, hv => by
      rw [List.lookup_cons] at hv
      split at hv
      · exact Option.some.inj hv ▸ hw
      · exact MembersInSmallLetters.lookup hrest hv

theorem MembersInSmallLetters.nodup_names :
    ∀ {members : Members}, MembersInSmallLetters members → (members.map Prod.fst).Nodup
  | [], _ => List.Pairwise.nil
  | (_, _) :: _, ⟨⟨_, hnew⟩, _, hrest⟩ => List.nodup_cons.mpr ⟨hnew, nodup_names hrest⟩

end Toml

namespace Layers

open Toml (InSmallLetters MembersInSmallLetters)

variable {members : Toml.Members}

/-! ## One value -/

/-- Another value under a name adds no other name. -/
theorem mem_names_replace {k name : String} {v : Toml} :
    ∀ {members : Toml.Members}, k ∈ (replace members name v).map Prod.fst → k = name ∨ k ∈ members.map Prod.fst
  | [], h => .inl (List.mem_singleton.mp h)
  | (l, old) :: rest, h => by
      unfold replace at h
      split at h
      · exact .inr h
      · rcases List.mem_cons.mp h with rfl | h
        · exact .inr List.mem_cons_self
        · exact (mem_names_replace h).imp id (List.mem_cons_of_mem l)

theorem replace_inSmallLetters {name : String} {v : Toml} (hname : Toml.lowerCased name = name)
    (hv : InSmallLetters v) :
    ∀ {members : Toml.Members}, MembersInSmallLetters members → MembersInSmallLetters (replace members name v)
  | [], _ => ⟨⟨hname, List.not_mem_nil⟩, hv, trivial⟩
  | (k, old) :: rest, ⟨⟨hk, hnew⟩, hold, hrest⟩ => by
      unfold replace
      split
      · exact ⟨⟨hk, hnew⟩, hv, hrest⟩
      · rename_i hne
        refine ⟨⟨hk, fun hmem => ?_⟩, hold, replace_inSmallLetters hname hv hrest⟩
        rcases mem_names_replace hmem with rfl | hmem
        · exact hne (beq_self_eq_true k)
        · exact hnew hmem

/-- What stands under a name, or an empty table. -/
theorem below_inSmallLetters (h : MembersInSmallLetters members) (name : String) :
    InSmallLetters ((members.lookup name).getD (.table [])) := by
  cases hv : members.lookup name with
  | none => exact trivial
  | some v => exact h.lookup hv

theorem membersOf_inSmallLetters : ∀ {v : Option Toml}, (∀ t, v = some t → InSmallLetters t) →
    MembersInSmallLetters (membersOf v)
  | some (.table _), h => h _ rfl
  | some (.str _), _ | some (.int _), _ | some (.float _), _ | some (.bool _), _ | some (.datetime _), _
  | some (.arr _), _ | none, _ => trivial

mutual

/-- **The step**: one value laid over another writes small letters only. -/
theorem lay_inSmallLetters : ∀ (v : Toml) {members : Toml.Members} (name : String),
    MembersInSmallLetters members → MembersInSmallLetters (lay members name v)
  | .table inner, members, name, h => by
      unfold lay
      refine replace_inSmallLetters (Toml.lowerCased_lowerCased name) ?_ h
      exact layAll_inSmallLetters inner (below_inSmallLetters h _)
  | .str _, _, name, h | .int _, _, name, h | .float _, _, name, h | .bool _, _, name, h
  | .datetime _, _, name, h | .arr _, _, name, h => by
      unfold lay
      refine replace_inSmallLetters (Toml.lowerCased_lowerCased name) ?_ h
      trivial

theorem layAll_inSmallLetters : ∀ (inner : List (String × Toml)) {below : Toml},
    InSmallLetters below → InSmallLetters (layAll below inner)
  | [], _, h => h
  | (name, v) :: rest, below, h => by
      have hbelow : MembersInSmallLetters (membersOf (some below)) :=
        membersOf_inSmallLetters fun _ ht => Option.some.inj ht ▸ h
      exact layAll_inSmallLetters rest (lay_inSmallLetters v name hbelow)

end

/-- A value laid at the end of a path. -/
theorem layAt_inSmallLetters (v : Toml) : ∀ (path : List String) {members : Toml.Members},
    MembersInSmallLetters members → MembersInSmallLetters (layAt members v path)
  | [], _, h => h
  | [name], _, h => lay_inSmallLetters v name h
  | name :: next :: rest, members, h => by
      have hbelow : MembersInSmallLetters (membersOf (members.lookup (Toml.lowerCased name))) :=
        membersOf_inSmallLetters fun _ ht => h.lookup ht
      unfold layAt
      refine replace_inSmallLetters (Toml.lowerCased_lowerCased name) ?_ h
      exact layAt_inSmallLetters v (next :: rest) hbelow

/-! ## All layers -/

theorem layLayer_inSmallLetters (h : MembersInSmallLetters members) (layer : Toml.Members) :
    MembersInSmallLetters (layLayer members layer) :=
  List.foldlRecOn layer _ h fun _ hms m _ => layAt_inSmallLetters m.2 (pathOf m.1) hms

theorem layEnvironment_inSmallLetters (h : MembersInSmallLetters members) (env : Environment) :
    MembersInSmallLetters (layEnvironment members env) :=
  List.foldlRecOn _ _ h fun _ hms m _ => layAt_inSmallLetters m.2 m.1 hms

theorem layFile_inSmallLetters {d : Disk} {name : List Char} {result : Toml.Members}
    (h : MembersInSmallLetters members) (hresult : layFile d members name = .ok result) :
    MembersInSmallLetters result := by
  unfold layFile at hresult
  split at hresult
  · exact Except.ok.inj hresult ▸ h
  · obtain ⟨layer, -, rfl⟩ := map_eq_ok hresult
    exact layLayer_inSmallLetters h layer

theorem layFiles_inSmallLetters {d : Disk} : ∀ {names : List (List Char)} {members result : Toml.Members},
    MembersInSmallLetters members → layFiles d members names = .ok result → MembersInSmallLetters result
  | [], _, _, h, hresult => Except.ok.inj hresult ▸ h
  | _ :: _, _, _, h, hresult => by
      obtain ⟨next, hnext, hresult⟩ := bind_eq_ok hresult
      exact layFiles_inSmallLetters (layFile_inSmallLetters h hnext) hresult

/-- **The run**: whatever the files and the environment say, the layers form tables in small letters. -/
theorem layers_inSmallLetters {d : Disk} {env : Environment} {explicit : Option String}
    (h : layers d env explicit = .ok members) : MembersInSmallLetters members := by
  obtain ⟨standard, hstandard, h⟩ := bind_eq_ok h
  have hnone : MembersInSmallLetters [] := trivial
  have hfiles : MembersInSmallLetters standard := layFiles_inSmallLetters hnone hstandard
  cases explicit with
  | none =>
    obtain rfl := Except.ok.inj h
    exact layEnvironment_inSmallLetters hfiles env
  | some name =>
    dsimp only at h
    split at h
    · exact absurd h nofun
    · obtain ⟨laid, hlaid, h⟩ := bind_eq_ok h
      obtain ⟨layer, -, rfl⟩ := map_eq_ok hlaid
      obtain rfl := Except.ok.inj h
      exact layEnvironment_inSmallLetters (layLayer_inSmallLetters hfiles layer) env

end Layers

end DecoderForge
