import SurfaceFabric.Proofs.Mapping.Fresh
import SurfaceFabric.Proofs.Pool.Protocol

/-!
Cells for everything. The circuit that a layout was placed for finds a cell for each register and I/O symbol, no two
of them in one cell, and none at the entrance of a factory. The factories are all free and have entrances of their
own.
-/

namespace SurfaceFabric.Mapping

open Layout

variable {m : Mapping} {c : Circuit} {l : Layout} {grid : Rect} {anchor : Cell}

/-- A mapping in which no two operands of a gate can ever be found in one cell. -/
structure Accommodates (m : Mapping) (c : Circuit) : Prop where
  located : ∀ n g, c.gate? n = some g → ∀ s ∈ g.operands, s.isFactory = false → ∃ cell, m.cell? s = some cell
  injective : ∀ s s' cell, m.cell? s = some cell → m.cell? s' = some cell → s = s'
  apart : ∀ s cell, m.cell? s = some cell → cell ∉ m.pool.sites.map Prod.snd
  ports : (m.pool.sites.map Prod.snd).Nodup
  kept : m.pool.Kept []

/-- Only the holders of factories matter for what may change. -/
theorem Accommodates.withPool {m' : Mapping} (h : m.Accommodates c) (hcells : m'.cells = m.cells)
    (hsites : m'.pool.sites = m.pool.sites) (hkept : m'.pool.Kept []) : m'.Accommodates c := by
  have hcell (s : Symbol) : m'.cell? s = m.cell? s := by
    unfold cell?
    rw [hcells]
  refine ⟨?_, ?_, ?_, hsites ▸ h.ports, hkept⟩
  · simpa only [hcell] using h.located
  · simpa only [hcell] using h.injective
  · simpa only [hcell, hsites] using h.apart

/-- Where a symbol is: at the entrance of the factory it holds, or in its cell. -/
def Places (m : Mapping) (s : Symbol) (e : Cell) : Prop :=
  if s.isFactory = true then m.pool.Holds s e else m.cell? s = some e

/-- No symbol is in two places, and no two are in one. -/
theorem Accommodates.biUnique (h : m.Accommodates c) : Relator.BiUnique m.Places := by
  have hport {s : Symbol} {e : Cell} (hs : m.pool.Holds s e) : e ∈ m.pool.sites.map Prod.snd := by
    obtain ⟨slot, hslot, -, rfl⟩ := hs
    exact List.mem_map_of_mem (List.mem_map_of_mem hslot)
  constructor
  · intro s e s' hs hs'
    unfold Places at hs hs'
    split at hs <;> split at hs'
    · exact Pool.eq_of_holds_entrance h.ports hs hs'
    · exact absurd (hport hs) (h.apart _ _ hs')
    · exact absurd (hport hs') (h.apart _ _ hs)
    · exact h.injective _ _ _ hs hs'
  · intro s e e' he he'
    unfold Places at he he'
    split at he
    · exact h.kept.eq_of_holds he (by simpa [*] using he')
    · exact Option.some.inj (he.symm.trans (by simpa [*] using he'))

/-- The factories of a placed layout have entrances of their own, in their own cells. -/
theorem ports_ofLayout (h : Founded l grid anchor) (howned : Owned l) :
    ((ofLayout l).pool.sites.map Prod.snd).Nodup ∧
      ∀ e ∈ (ofLayout l).pool.sites.map Prod.snd, ∃ handle, l.tiling.roleAt? e = some (.factory handle) := by
  obtain ⟨-, -, hslots, -⟩ := exists_fresh h howned
  have hports : ((ofLayout l).pool.sites.map Prod.snd).Perm (l.units.filterMap fun u => l.entrance? u.handle) := by
    refine ((hslots.map _).map _).trans (.of_eq ?_)
    simp [Pool.ofLayout, List.map_filterMap, Function.comp_def]
  have hrole : ∀ u ∈ l.units, ∀ e, l.entrance? u.handle = some e →
      l.tiling.roleAt? e = some (.factory u.handle) := by
    intro u hu e he
    obtain ⟨e', he', hrole, -⟩ := h.entrance hu
    rwa [Option.some.inj (he.symm.trans he')]
  constructor
  · have hunits : l.units.Pairwise fun u v =>
        ∀ e, l.entrance? u.handle = some e → l.entrance? v.handle ≠ some e := by
      refine h.pairwise_handles.imp_of_mem fun hu hv hne e he he' => hne ?_
      simpa using (hrole _ hu e he).symm.trans (hrole _ hv e he')
    refine hports.nodup_iff.2 (hunits.filterMap _ ?_)
    rintro u v hapart e he _ he' rfl
    exact hapart e he he'
  · intro e he
    obtain ⟨u, hu, he⟩ := List.mem_filterMap.1 (hports.mem_iff.1 he)
    exact ⟨u.handle, hrole u hu e he⟩

theorem exists_accommodates (h : Founded l grid anchor) (howned : Owned l) (hcheck : l.checkCapacity c = .ok ())
    (hbuilt : c.Built) : ∃ m, (ofLayout l).mapCircuit c = (m, .ok ()) ∧ m.pool = (ofLayout l).pool ∧
      m.Accommodates c := by
  obtain ⟨m, rank, hmap, hmapped, hpool, hsymbols⟩ := exists_mapped_of_founded h howned hcheck hbuilt
  obtain ⟨hports, hroles⟩ := ports_ofLayout h howned
  refine ⟨m, hmap, hpool, ?_, ?_, ?_, hpool ▸ hports, ?_⟩
  · intro n g hg s hs hfactory
    have hmem : s ∈ m.cells.map Prod.fst := by
      rw [hsymbols]
      exact hbuilt.mem_symbols hg hs hfactory
    exact Option.ne_none_iff_exists'.1 fun hnone => cell?_eq_none_iff.1 hnone hmem
  · exact fun s s' cell => hmapped.injective
  · intro s cell hs hmem
    obtain ⟨role, hrole, hslot⟩ := hmapped.used _ (mem_cells_of_cell? hs)
    obtain ⟨handle, hfactory⟩ := hroles cell (hpool ▸ hmem)
    rw [hfactory] at hrole
    cases hrole
    rcases hslot with hslot | hslot <;> cases hslot
  · obtain ⟨-, -, hslots, -⟩ := exists_fresh h howned
    rw [hpool]
    refine .of_free ?_ fun slot hslot => Pool.free_ofLayout (hslots.mem_iff.1 hslot)
    exact (hslots.map _).nodup_iff.2 (Pool.distinct_of_pairwise h.pairwise_handles)

end SurfaceFabric.Mapping
