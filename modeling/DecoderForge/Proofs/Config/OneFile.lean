import DecoderForge.Proofs.Config.ExplicitFile
import DecoderForge.Proofs.Toml.Ordered

/-!
# DecoderForge — one file in all layers

A file may be laid more than once, where several names lead to it.  From then on the layers say what it says:
under a name in small letters stands the value of the file, a table as it is after the same number of times.

## The architecture

* **`Layers.layOver`** — members laid over others, one by one.
* **`Layers.timesLaid`** — what members make of an empty table when they are laid a number of times.
* **`Layers.lookup_timesLaid`** — what stands under a name then.
* **`Layers.layFiles_eq_timesLaid`** — files that are all the same one.
-/

namespace DecoderForge.Layers

variable {members inner : Toml.Members}

/-! ## One value over another -/

/-- Members laid over others, one by one. -/
def layOver (members inner : Toml.Members) : Toml.Members := inner.foldl (fun ms m => lay ms m.1 m.2) members

/-- What a value makes of the one that stands below it. -/
def overlaid (below : Option Toml) : Toml → Toml
  | .table inner => layAll (below.getD (.table [])) inner
  | v => v

theorem layAll_table : ∀ members inner : Toml.Members, layAll (.table members) inner = .table (layOver members inner)
  | _, [] => rfl
  | members, (name, v) :: inner => layAll_table (lay members name v) inner

theorem lay_eq_replace (members : Toml.Members) (name : String) (v : Toml) :
    lay members name v
      = replace members (Toml.lowerCased name) (overlaid (members.lookup (Toml.lowerCased name)) v) := by
  cases v <;> rfl

theorem lookup_replace (name key : String) (v : Toml) : ∀ members : Toml.Members,
    (replace members name v).lookup key = if key = name then some v else members.lookup key
  | [] => Json.lookup_cons_eq_ite name key v []
  | (k, old) :: rest => by
      unfold replace
      by_cases hk : (k == name) = true
      · obtain rfl := beq_iff_eq.mp hk
        rw [if_pos hk, Json.lookup_cons_eq_ite, Json.lookup_cons_eq_ite]
        split <;> rfl
      · rw [if_neg hk, Json.lookup_cons_eq_ite, Json.lookup_cons_eq_ite, lookup_replace name key v rest]
        by_cases h : key = k
        · have hname : key ≠ name := fun heq => hk (beq_iff_eq.mpr (h.symm.trans heq))
          rw [if_pos h, if_neg hname, if_pos h]
        · rw [if_neg h, if_neg h]

theorem lookup_lay (members : Toml.Members) (name key : String) (v : Toml) :
    (lay members name v).lookup key = if key = Toml.lowerCased name
      then some (overlaid (members.lookup (Toml.lowerCased name)) v) else members.lookup key := by
  rw [lay_eq_replace, lookup_replace]

/-- Whether members have names in small letters, each once; the tables in them may differ. -/
def HasSmallNames (members : Toml.Members) : Prop :=
  (members.map Prod.fst).Nodup ∧ ∀ m ∈ members, Toml.lowerCased m.1 = m.1

/-- **Under each name stands what the member of that name makes of what was there.** -/
theorem lookup_layOver (key : String) : ∀ {inner : Toml.Members} (members : Toml.Members), HasSmallNames inner →
    (layOver members inner).lookup key = match inner.lookup key with
      | some v => some (overlaid (members.lookup key) v)
      | none => members.lookup key
  | [], _, _ => rfl
  | (name, v) :: inner, members, h => by
      obtain ⟨hnodup, hsmall⟩ := h
      obtain ⟨hname, hnodup⟩ := List.nodup_cons.mp hnodup
      have hinner : HasSmallNames inner := ⟨hnodup, fun m hm => hsmall m (List.mem_cons_of_mem _ hm)⟩
      have hlower : Toml.lowerCased name = name := hsmall (name, v) List.mem_cons_self
      show (layOver (lay members name v) inner).lookup key = _
      rw [lookup_layOver key _ hinner, lookup_lay, hlower, Json.lookup_cons_eq_ite]
      by_cases h : key = name
      · -- the name does not come again, so the rest leaves its value alone
        subst h
        rw [Json.lookup_eq_none_of_notMem hname, if_pos rfl, if_pos rfl]
      · rw [if_neg h, if_neg h]

theorem mem_names_layOver {key : String} : ∀ {inner members : Toml.Members},
    key ∈ (layOver members inner).map Prod.fst →
      key ∈ members.map Prod.fst ∨ ∃ m ∈ inner, Toml.lowerCased m.1 = key
  | [], _, h => .inl h
  | (name, v) :: inner, members, h => by
      have h : key ∈ (layOver (lay members name v) inner).map Prod.fst := h
      rcases mem_names_layOver h with h | ⟨m, hm, heq⟩
      · rw [lay_eq_replace] at h
        rcases mem_names_replace h with rfl | h
        · exact .inr ⟨(name, v), List.mem_cons_self, rfl⟩
        · exact .inl h
      · exact .inr ⟨m, List.mem_cons_of_mem _ hm, heq⟩

/-! ## A number of times -/

/-- What members make of an empty table when they are laid a number of times. -/
def timesLaid (inner : Toml.Members) : Nat → Toml.Members
  | 0 => []
  | n + 1 => layOver (timesLaid inner n) inner

/-- A value as it stands after it was laid a number of times. -/
def standing (n : Nat) : Toml → Toml
  | .table inner => .table (timesLaid inner n)
  | v => v

/-- **What stands under a name** after members were laid, once or more. -/
theorem lookup_timesLaid (h : HasSmallNames inner) (key : String) : ∀ n,
    (timesLaid inner (n + 1)).lookup key = (inner.lookup key).map (standing (n + 1))
  | 0 => by
      rw [timesLaid, timesLaid, lookup_layOver key [] h]
      cases inner.lookup key with
      | none => rfl
      | some v => cases v with
        -- a table is not copied: its members are laid over an empty one, which spells their names in small letters
        | table members => exact congrArg some (layAll_table [] members)
        | _ => rfl
  | n + 1 => by
      rw [timesLaid, lookup_layOver key _ h, lookup_timesLaid h key n]
      cases inner.lookup key with
      | none => rfl
      | some v => cases v with
        | table members => exact congrArg some (layAll_table (timesLaid members (n + 1)) members)
        | _ => rfl

/-- Names come from the members that are laid. -/
theorem mem_names_timesLaid {key : String} : ∀ {n : Nat}, key ∈ (timesLaid inner n).map Prod.fst →
    ∃ m ∈ inner, Toml.lowerCased m.1 = key
  | _ + 1, h => (mem_names_layOver h).elim mem_names_timesLaid id

/-! ## A file -/

/-- A layer of which no name has dots is laid member by member. -/
theorem layLayer_eq_layOver {layer : Toml.Members} (h : ∀ m ∈ layer, pathOf m.1 = [m.1]) (members : Toml.Members) :
    layLayer members layer = layOver members layer := by
  unfold layLayer layOver
  refine List.foldl_ext _ _ _ fun ms m hm => ?_
  show layAt ms m.2 (pathOf m.1) = _
  rw [h m hm]
  rfl

/-- A file is what stands where its path leads. -/
theorem readLayer_congr {d : Disk} {path path' : List Char} (h : d.locate path = d.locate path') :
    readLayer d path = readLayer d path' := by
  unfold readLayer
  rw [Disk.read_congr h]

/-- **Files that are all the same one** are that file, laid a number of times. -/
theorem layFiles_eq_timesLaid {d : Disk} {path : List Char} {layer : Toml.Members}
    (hlayer : readLayer d path = .ok layer) (hnames : ∀ m ∈ layer, pathOf m.1 = [m.1]) :
    ∀ {names : List (List Char)} (n : Nat),
      (∀ name ∈ names, ∀ found, fileFor? d name = some found → d.locate found = d.locate path) →
        ∃ m, layFiles d (timesLaid layer n) names = .ok (timesLaid layer m)
  | [], n, _ => ⟨n, rfl⟩
  | name :: names, n, h => by
      have hrest : ∀ k ∈ names, ∀ found, fileFor? d k = some found → d.locate found = d.locate path :=
        fun k hk => h k (List.mem_cons_of_mem name hk)
      unfold layFiles layFile
      cases hfound : fileFor? d name with
      | none => exact layFiles_eq_timesLaid hlayer hnames n hrest
      | some found =>
        -- the file is found once more, so what stands already is laid over by itself
        have hsame := h name List.mem_cons_self found hfound
        dsimp only
        rw [readLayer_congr hsame, hlayer]
        have hnext : layLayer (timesLaid layer n) layer = timesLaid layer (n + 1) := layLayer_eq_layOver hnames _
        show ∃ m, layFiles d (layLayer (timesLaid layer n) layer) names = .ok (timesLaid layer m)
        rw [hnext]
        exact layFiles_eq_timesLaid hlayer hnames (n + 1) hrest

end DecoderForge.Layers
