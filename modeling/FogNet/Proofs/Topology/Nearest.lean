import FogNet.Proofs.Topology.Leaves
import FogNet.Proofs.Topology.Validity

/-!
# The nearest orchestrating device

The chain of a device lists what is above it, nearest first, and nothing twice. So the first
orchestrating device of the chain is the lowest one above the device, and the way up to it passes no
other. If the device is a leaf, this way is the only path from it that ends there.

## Main statements

* `Forest.mem_chain_iff`, `Forest.chain_pairwise` — what a chain lists, and in which order
* `Forest.orchestratorFor_eq_some_iff`, `Forest.orchestratorFor_eq_none_iff` — who orchestrates a
  device, if anyone does
* `Forest.exists_way` — the way up to who orchestrates a device
* `Forest.leafPaths_filter_head` — the paths from one leaf
-/

namespace FogNet

open Relation

/-- Beginnings of a list without repetitions that end with the same element are the same. -/
theorem eq_of_prefix_of_getLast? {α : Type} {xs ys zs : List α} {a : α} (hn : zs.Nodup)
    (hx : xs <+: zs) (hy : ys <+: zs) (hxa : xs.getLast? = some a) (hya : ys.getLast? = some a) :
    xs = ys := by
  have hone {xs ys : List α} (hn : ys.Nodup) (hp : xs <+: ys) (hxa : xs.getLast? = some a)
      (hya : ys.getLast? = some a) : xs = ys := by
    obtain ⟨more, rfl⟩ := hp
    cases hm : more.getLast? with
    | none => rw [List.getLast?_eq_none_iff.mp hm, List.append_nil]
    | some b =>
      -- What ends the longer list would stand in the shorter one as well.
      rw [List.getLast?_append, hm, Option.some_or] at hya
      have hb := Option.some.inj hya ▸ List.mem_of_getLast? hm
      exact absurd rfl ((List.nodup_append.mp hn).2.2 a (List.mem_of_getLast? hxa) a hb)
  rcases List.prefix_or_prefix_of_prefix hx hy with h | h
  · exact hone (hn.sublist hy.sublist) h hxa hya
  · exact (hone (hn.sublist hx.sublist) h hya hxa).symm

namespace Layout

variable {l : Layout} {root id d e : DeviceId}

/-! ## Who orchestrates -/

/-- A fog orchestration node, or a data centre. -/
def IsOrchestrator (l : Layout) (id : DeviceId) : Prop :=
  ∃ d, l.device? id = some d ∧ (d.role = .fon ∨ d.role = .cloud)

/-- The lowest orchestrating device above a device, which may be the device itself. -/
structure LowestOrchestrator (l : Layout) (id root : DeviceId) : Prop where
  above : ReflTransGen l.Under id root
  orchestrates : l.IsOrchestrator root
  lowest : ∀ d, ReflTransGen l.Under id d → l.IsOrchestrator d → ReflTransGen l.Under root d

theorem isOrchestrator_iff {dev : Device} (hd : l.device? id = some dev) :
    l.IsOrchestrator id ↔ dev.role.orchestrates = true := by
  have hrole : dev.role.orchestrates = true ↔ dev.role = .fon ∨ dev.role = .cloud := by
    cases dev.role <;> decide
  rw [hrole]
  constructor
  · rintro ⟨dev', hd', hor⟩
    rw [hd, Option.some.injEq] at hd'
    exact hd' ▸ hor
  · exact fun hor => ⟨dev, hd, hor⟩

namespace Forest

/-! ## Chains -/

/-- What holds of every device of whose parent it holds is true of all devices. -/
theorem parent_induction (h : l.Forest) {P : DeviceId → Prop}
    (step : ∀ id dev, l.device? id = some dev → (∀ p, dev.parent = some p → P p) → P id)
    (hid : id ∈ l.ids) : P id := by
  induction hdepth : (l.chain id).length using Nat.strongRecOn generalizing id with
  | ind depth ih =>
    obtain ⟨dev, hdev, hmem, _⟩ := exists_device hid
    refine step id dev hdev fun p hp => ?_
    exact ih _ (hdepth ▸ h.depth_parent_lt hdev hp) (h.parent_known dev hmem p hp) rfl

/-- A chain lists declared devices. -/
theorem chain_subset (h : l.Forest) (hid : id ∈ l.ids) : l.chain id ⊆ l.devices := by
  refine h.parent_induction (P := fun id => l.chain id ⊆ l.devices) (fun id dev hdev ih => ?_) hid
  rw [h.chain_eq hdev]
  refine List.cons_subset.mpr ⟨(device?_some hdev).1, ?_⟩
  cases hp : dev.parent with
  | none => exact List.nil_subset _
  | some p => exact ih p hp

/-- A chain lists the device and what is above it. -/
theorem mem_chain_iff (h : l.Forest) (hid : id ∈ l.ids) :
    d ∈ (l.chain id).map Device.id ↔ ReflTransGen l.Under id d := by
  refine h.parent_induction (P := fun id => d ∈ (l.chain id).map Device.id ↔
    ReflTransGen l.Under id d) (fun id dev hdev ih => ?_) hid
  have hself := (device?_some hdev).2
  rw [h.chain_eq hdev, ReflTransGen.cases_head_iff, List.map_cons, List.mem_cons, hself, eq_comm]
  refine or_congr Iff.rfl ?_
  cases hp : dev.parent with
  | none => simp [Under, parent?, hdev, hp]
  | some p => simpa [Under, parent?, hdev, hp] using ih p hp

/-- Every device of a chain is below those that follow. -/
theorem chain_pairwise (h : l.Forest) (hid : id ∈ l.ids) :
    ((l.chain id).map Device.id).Pairwise (TransGen l.Under) := by
  refine h.parent_induction (P := fun id => ((l.chain id).map Device.id).Pairwise
    (TransGen l.Under)) (fun id dev hdev ih => ?_) hid
  obtain ⟨hmem, hself⟩ := device?_some hdev
  rw [h.chain_eq hdev, List.map_cons, hself]
  cases hp : dev.parent with
  | none => exact List.pairwise_singleton _ _
  | some p =>
    refine List.pairwise_cons.mpr ⟨fun e he => ?_, ih p hp⟩
    have hup : l.Under id p := parent?_eq_some.mpr ⟨dev, hdev, hp⟩
    exact TransGen.head' hup ((h.mem_chain_iff (h.parent_known dev hmem p hp)).mp he)

/-- A chain lists no device twice. -/
theorem chain_nodup (h : l.Forest) (hid : id ∈ l.ids) : ((l.chain id).map Device.id).Nodup :=
  (h.chain_pairwise hid).imp fun {a b} (hab : TransGen l.Under a b) (hne : a = b) =>
    h.acyclic a (hne ▸ hab)

theorem chain_head? (h : l.Forest) (hid : id ∈ l.ids) :
    ((l.chain id).map Device.id).head? = some id := by
  obtain ⟨dev, hdev, _, rfl⟩ := exists_device hid
  rw [h.chain_eq hdev]
  rfl

/-- A chain goes from child to parent. -/
theorem chain_isChain (h : l.Forest) (hid : id ∈ l.ids) :
    ((l.chain id).map Device.id).IsChain l.Under := by
  refine h.parent_induction (P := fun id => ((l.chain id).map Device.id).IsChain l.Under)
    (fun id dev hdev ih => ?_) hid
  obtain ⟨hmem, hself⟩ := device?_some hdev
  rw [h.chain_eq hdev, List.map_cons, hself]
  cases hp : dev.parent with
  | none => exact .singleton id
  | some p =>
    have hup : l.Under id p := parent?_eq_some.mpr ⟨dev, hdev, hp⟩
    obtain ⟨rest, hrest⟩ := List.head?_eq_some_iff.mp (h.chain_head? (h.parent_known dev hmem p hp))
    have hchain := ih p hp
    rw [hrest] at hchain
    rw [Option.map_some, Option.getD_some, hrest]
    exact hchain.cons_cons hup

/-! ## The way up -/

/-- The way up to who orchestrates a device ends there, and passes no other that could. -/
theorem exists_way (h : l.Forest) (hroot : l.orchestratorFor id = some root) :
    ∃ way, way <+: (l.chain id).map Device.id ∧ way.getLast? = some root ∧
      ∀ d ∈ way, l.IsOrchestrator d ↔ d = root := by
  obtain ⟨dev, hfind, rfl⟩ := Option.map_eq_some_iff.mp hroot
  obtain ⟨horch, passed, rest, hchain, hpassed⟩ := List.find?_eq_some_iff_append.mp hfind
  rw [List.append_cons] at hchain
  have hknown {e : Device} (he : e ∈ passed ++ [dev]) : l.device? e.id = some e := by
    refine h.device?_eq (h.chain_subset (mem_ids_of_orchestratorFor hroot) ?_)
    rw [hchain]
    exact List.mem_append_left _ he
  refine ⟨(passed ++ [dev]).map Device.id, ?_, by simp, fun d hd => ?_⟩
  · have hmap : (l.chain id).map Device.id = (passed ++ [dev]).map Device.id
        ++ rest.map Device.id := by rw [hchain, List.map_append]
    exact ⟨_, hmap.symm⟩
  · obtain ⟨e, he, rfl⟩ := List.mem_map.mp hd
    rw [isOrchestrator_iff (hknown he)]
    rcases List.mem_append.mp he with hold | hself
    · have hnot : e.role.orchestrates = false := by simpa using hpassed e hold
      refine iff_of_false (fun he => Bool.false_ne_true (hnot.symm.trans he)) fun hid => ?_
      have hsame := hknown (List.mem_append_right passed List.mem_cons_self)
      rw [← hid, hknown he, Option.some.injEq] at hsame
      rw [← hsame, hnot] at horch
      cases horch
    · rw [List.mem_singleton.mp hself]
      exact iff_of_true horch rfl

/-- The way up to a device lies in its domain. -/
theorem way_subset_domain (h : l.Forest) {way : List DeviceId} (hid : id ∈ l.ids)
    (hway : way <+: (l.chain id).map Device.id) (hlast : way.getLast? = some root) :
    way ⊆ l.domain root := by
  have hchain : ∀ d ∈ way, d ∈ (l.chain id).map Device.id := fun d hd => hway.subset hd
  obtain ⟨met, rfl⟩ := List.getLast?_eq_some_iff.mp hlast
  obtain ⟨dev, hdev, hself⟩ := List.mem_map.mp (hchain root (by simp))
  have hroot : l.contains root = true :=
    contains_iff.mpr (mem_ids.mpr ⟨dev, h.chain_subset hid hdev, hself⟩)
  have hpairwise := List.pairwise_append.mp ((h.chain_pairwise hid).sublist hway.sublist)
  intro d hd
  refine h.mem_domain_of_onWay hroot (onWay_iff_above.mpr ?_)
  rcases List.mem_append.mp hd with hmet | hlast
  · exact (hpairwise.2.2 d hmet root List.mem_cons_self).to_reflTransGen
  · rw [List.mem_singleton.mp hlast]

/-- Who orchestrates a device is the lowest orchestrating device above it. -/
theorem lowest_of_orchestratorFor (h : l.Forest) (hroot : l.orchestratorFor id = some root) :
    l.LowestOrchestrator id root := by
  have hid := mem_ids_of_orchestratorFor hroot
  obtain ⟨way, ⟨rest, hsplit⟩, hlast, horch⟩ := h.exists_way hroot
  have hmem := List.mem_of_getLast? hlast
  refine ⟨(h.mem_chain_iff hid).mp ?_, (horch root hmem).mpr rfl, fun d hd hor => ?_⟩
  · rw [← hsplit]
    exact List.mem_append_left _ hmem
  · have hchain := (h.mem_chain_iff hid).mpr hd
    have hpairwise := h.chain_pairwise hid
    rw [← hsplit] at hchain hpairwise
    rcases List.mem_append.mp hchain with hway | hbeyond
    · rw [(horch d hway).mp hor]
    · exact ((List.pairwise_append.mp hpairwise).2.2 root hmem d hbeyond).to_reflTransGen

/-- No one orchestrates a device just when no device above it could. -/
theorem orchestratorFor_eq_none_iff (h : l.Forest) (hid : id ∈ l.ids) :
    l.orchestratorFor id = none ↔ ∀ d, ReflTransGen l.Under id d → ¬ l.IsOrchestrator d := by
  constructor
  · intro hnone d hd ⟨dev, hdev, hrole⟩
    rw [orchestratorFor, Option.map_eq_none_iff, List.find?_eq_none] at hnone
    obtain ⟨dev', hmem, rfl⟩ := List.mem_map.mp ((h.mem_chain_iff hid).mpr hd)
    have hsame := h.device?_eq (h.chain_subset hid hmem)
    exact hnone dev' hmem ((isOrchestrator_iff hsame).mp ⟨dev, hdev, hrole⟩)
  · intro hall
    refine Option.eq_none_iff_forall_ne_some.mpr fun root hroot => ?_
    have hlowest := h.lowest_of_orchestratorFor hroot
    exact hall root hlowest.above hlowest.orchestrates

/-- Who orchestrates a device, by what is above it. -/
theorem orchestratorFor_eq_some_iff (h : l.Forest) (hid : id ∈ l.ids) :
    l.orchestratorFor id = some root ↔ l.LowestOrchestrator id root := by
  refine ⟨h.lowest_of_orchestratorFor, fun hlowest => ?_⟩
  cases hfound : l.orchestratorFor id with
  | none =>
    have hnone := (h.orchestratorFor_eq_none_iff hid).mp hfound
    exact absurd hlowest.orchestrates (hnone root hlowest.above)
  | some other =>
    -- Two lowest ones are above each other.
    have hother := h.lowest_of_orchestratorFor hfound
    have hup := hlowest.lowest other hother.above hother.orchestrates
    have hdown := hother.lowest root hlowest.above hlowest.orchestrates
    rcases reflTransGen_iff_eq_or_transGen.mp hup with heq | hup
    · rw [heq]
    · exact absurd (hup.trans_left hdown) (h.acyclic root)

/-! ## The paths from one leaf -/

/-- The only path from a leaf follows its chain up to the root. -/
theorem leafPaths_filter_head (h : l.Forest) {way : List DeviceId} (hleaf : l.children id = [])
    (hid : id ∈ l.ids) (hway : way <+: (l.chain id).map Device.id)
    (hlast : way.getLast? = some root) :
    way ∈ l.leafPaths root ∧ ((l.leafPaths root).filter fun p => p.head? == some id) = [way] := by
  have hmem : root ∈ (l.chain id).map Device.id := hway.subset (List.mem_of_getLast? hlast)
  have habove := (h.mem_chain_iff hid).mp hmem
  obtain ⟨dev, hdev, rfl⟩ := List.mem_map.mp hmem
  have hroot : l.contains dev.id = true :=
    contains_iff.mpr (mem_ids.mpr ⟨dev, h.chain_subset hid hdev, rfl⟩)
  obtain ⟨p, hp, hhead⟩ := (h.exists_leafPath_iff hroot).mpr ⟨hleaf, habove⟩
  have hpath : p = way := by
    obtain ⟨met, rfl⟩ := leafPaths_concat hp
    have hbegin := h.leafPath_prefix hp hhead
    exact eq_of_prefix_of_getLast? (h.chain_nodup hid) hbegin hway List.getLast?_concat hlast
  subst hpath
  refine ⟨hp, ?_⟩
  -- Any other path starts elsewhere.
  obtain ⟨before, after, hsplit⟩ := List.append_of_mem hp
  have hheads := h.leafPaths_heads dev.id
  rw [hsplit, List.map_append, List.map_cons, hhead, List.nodup_append, List.nodup_cons] at hheads
  obtain ⟨_, ⟨hafter, _⟩, hbefore⟩ := hheads
  have hnone {paths : List (List DeviceId)} (hne : some id ∉ paths.map List.head?) :
      (paths.filter fun p => p.head? == some id) = [] := by
    refine List.filter_eq_nil_iff.mpr fun q hq hqid => hne ?_
    exact List.mem_map.mpr ⟨q, hq, by simpa using hqid⟩
  rw [hsplit, List.filter_append, List.filter_cons_of_pos (by simp [hhead]), hnone hafter,
    hnone fun hb => hbefore _ hb _ List.mem_cons_self rfl, List.nil_append]

end Forest

end Layout

end FogNet
