import SpikeMesh.Proofs.Fabric.History
import SpikeMesh.Proofs.Mapping.Safety
import SpikeMesh.Proofs.Mapping.Validation
import SpikeMesh.Proofs.Routing.Peripherals
import SpikeMesh.Proofs.Run.Loading

set_option autoImplicit false

/-! # The mesh needs no tables of peripherals

Only the tables of the chips of the mesh are loaded onto a board. They are all that the traffic from
these chips needs: with them alone packets arrive at every target on the mesh, and are sent over the
link into the virtual chip of every other target. -/

namespace SpikeMesh

/-! ## The tables that are loaded -/

theorem Board.Contents.Holds.tables_eq {c : Board.Contents} {m : Mapping} {g : ApplicationGraph}
    {f : Fabric} (h : c.Holds m g f) : c.tables = (m.routingTables.onMesh f).tables := by
  refine Std.ExtTreeMap.ext_getElem? fun chip => Option.ext fun t => ?_
  exact (h.tables_iff chip t).trans RoutingTables.table?_onMesh_eq_some_iff.symm

/-- A board from which all was cleared holds the tables of the mesh after a mapping was loaded. -/
theorem Simulator.tables_of_load {s : Simulator} {m : Mapping} {g : ApplicationGraph}
    (hclear : s.board.contents.Clear) (hidle : s.board.running = none)
    (htargets : m.targets g s.fabric = .ok s.targets) (hload : (load g m s).1 = .ok ()) :
    (load g m s).2.board.contents.tables = (m.routingTables.onMesh s.fabric).tables := by
  obtain ⟨b, hb, -, hall⟩ := load_spec hclear hidle htargets
  rw [hb]
  exact (hall hload).1.tables_eq

/-! ## The fabric of a compilation -/

theorem Fabric.WellFormed.attachAll {f : Fabric} (hf : f.WellFormed)
    {specs : List VirtualChipSpec} (h : (f.attachAll specs).result = .ok ()) :
    (f.attachAll specs).fabric.WellFormed :=
  foldlM_ok_induction (fun _ f => f.WellFormed) (fun _ _ _ _ hf hstep => hf.addVirtualChip hstep)
    hf (attachAll_eq_ok h)

variable {config : Config} {allocator : KeyAllocator} {g : ApplicationGraph} {m : Mapping}

theorem Fabric.WellFormed.compileWith {f : Fabric} (hf : f.WellFormed)
    (h : (compileWith config allocator g f).result = .ok m) :
    (SpikeMesh.compileWith config allocator g f).fabric.WellFormed := by
  obtain ⟨budget, p, hby⟩ := compileWith_eq_ok h
  rw [hby.fabric_eq]
  exact hf.attachAll (Fabric.place_eq_ok hby.place_eq).1

/-- **Traffic of the mesh needs no tables of peripherals.** On a fabric that was edited in any way,
    a mapping is loaded with the tables of the mesh only. With these, the packets of a connection
    whose source is on the mesh are delivered to the targets on the mesh and nowhere else, and are
    sent over a link to the virtual chips of all other targets. -/
theorem compileWith_deliversOnMesh {start : Fabric} (hstart : start.Initial)
    (edits : List Fabric.Edit) (hids : FewerThanIds config g (start.afterEdits edits))
    (h : (compileWith config allocator g (start.afterEdits edits)).result = .ok m) :
    (∀ s : Simulator,
      s.fabric = (compileWith config allocator g (start.afterEdits edits)).fabric →
      s.board.contents.Clear → s.board.running = none → m.targets g s.fabric = .ok s.targets →
      (Simulator.load g m s).1 = .ok () → (Simulator.load g m s).2.board.contents.tables
        = (m.routingTables.onMesh s.fabric).tables) ∧
    ∀ pc ∈ m.partitioned.connections.toList, ∀ source,
      m.placements.get? pc.source = some source →
      (compileWith config allocator g (start.afterEdits edits)).fabric.isVirtual source.chip
        = false →
      ∃ key, (m.routingJob
          (compileWith config allocator g (start.afterEdits edits)).fabric).DeliversOnMesh
        m.routingTables pc source key := by
  refine ⟨fun s _ => Simulator.tables_of_load, ?_⟩
  intro pc hpc source hsource hreal
  have hwell := (hstart.wellFormed.afterEdits edits).compileWith h
  obtain ⟨budget, p, hby⟩ := compileWith_eq_ok h
  exact RoutingJob.deliversOnMesh_of_route (hby.routedBy.apart hids) hwell.toJoined hby.route_eq
    hpc hsource hreal

/-- Cells send to themselves and to a screen outside the mesh. -/
def screenGraph : ApplicationGraph where
  units :=
    let model : UnitModel := .linear ⟨"model", .zero, ⟨1, 1, 1⟩, 4⟩
    [{ label := "cells", atoms := 1, model, location := some ⟨⟨0, 0⟩, 1⟩ },
      { label := "screen", atoms := 1, model, virtualChip := some ⟨⟨7, 0⟩, ⟨1, 0⟩, .east⟩ }]
  connections := [⟨"back", ⟨0⟩, ⟨0⟩, .allToAll⟩, ⟨"shown", ⟨0⟩, ⟨1⟩, .allToAll⟩]

/-- A chip is gone, which leaves room for the screen. -/
def screenEdits : List Fabric.Edit := [.removeChip ⟨2, 0⟩, .setLinkSpeed ⟨0, 0⟩ .east 4]

/-- The row of chips that is left. -/
def screenFabric : Fabric := (Fabric.grid 3 1 ⟨3, 10, 10, 40, 8⟩ false).afterEdits screenEdits

/-- A simulator on a new board, for some targets of the screen's graph. -/
def screenSimulator (targets : ExecutableTargets) : Simulator :=
  { config := {}, fabric := (compile {} screenGraph screenFabric).fabric, targets }

theorem screenGraph_deliversOnMesh :
    FewerThanIds {} screenGraph screenFabric ∧
    ∃ m targets, (compile {} screenGraph screenFabric).result = .ok m ∧
      (Simulator.load screenGraph m (screenSimulator targets)).2.board.contents.tables
        = (m.routingTables.onMesh (compile {} screenGraph screenFabric).fabric).tables ∧
      (compile {} screenGraph screenFabric).fabric.isVirtual ⟨7, 0⟩ = true ∧
      m.placements.get? ⟨1⟩ = some ⟨⟨7, 0⟩, 1⟩ ∧
      ∃ pc ∈ m.partitioned.connections.toList, pc.targets = [⟨1⟩] ∧
        m.placements.get? pc.source = some ⟨⟨0, 0⟩, 1⟩ ∧
        ∃ key, (m.routingJob (compile {} screenGraph screenFabric).fabric).DeliversOnMesh
          m.routingTables pc ⟨⟨0, 0⟩, 1⟩ key := by
  have hids : FewerThanIds {} screenGraph screenFabric := by decide +kernel
  obtain ⟨m, h⟩ := exists_eq_ok_of_isOk
    (by decide +kernel : (compile {} screenGraph screenFabric).result.isOk = true)
  obtain ⟨hloaded, hdelivers⟩ := compileWith_deliversOnMesh (.grid 3 1 ⟨3, 10, 10, 40, 8⟩ false)
    screenEdits hids h
  have hplaced : ∀ m ∈ (compile {} screenGraph screenFabric).result.toOption,
      m.placements.get? ⟨1⟩ = some ⟨⟨7, 0⟩, 1⟩ ∧
      ∃ pc ∈ m.partitioned.connections.toList, pc.targets = [⟨1⟩] ∧
        m.placements.get? pc.source = some ⟨⟨0, 0⟩, 1⟩ := by
    decide +kernel
  obtain ⟨hscreen, pc, hpc, hlist, hsource⟩ := hplaced m (by rw [h]; rfl)
  have hready : ∀ m ∈ (compile {} screenGraph screenFabric).result.toOption,
      (m.targets screenGraph (compile {} screenGraph screenFabric).fabric).isOk = true ∧
      ∀ targets ∈ (m.targets screenGraph (compile {} screenGraph screenFabric).fabric).toOption,
        (Simulator.load screenGraph m (screenSimulator targets)).1.isOk = true := by
    decide +kernel
  obtain ⟨hok, hload⟩ := hready m (by rw [h]; rfl)
  obtain ⟨targets, htargets⟩ := exists_eq_ok_of_isOk hok
  obtain ⟨⟨⟩, hload⟩ := exists_eq_ok_of_isOk (hload targets (by rw [htargets]; rfl))
  exact ⟨hids, m, targets, h,
    hloaded (screenSimulator targets) rfl ⟨rfl, rfl, rfl⟩ rfl htargets hload,
    by decide +kernel, hscreen, pc, hpc, hlist, hsource,
    hdelivers pc hpc ⟨⟨0, 0⟩, 1⟩ hsource (by decide +kernel)⟩

end SpikeMesh
