import SurfaceFabric.Proofs.Pool
import SurfaceFabric.Proofs.Routing.Admission

/-!
Gates that are not admitted. Looking for operands changes nothing but the pool, one reservation after the
other, and the tickets it leaves are just those reservations. So giving them back restores the fabric.
-/

namespace SurfaceFabric

namespace RoutingJob

variable {job : RoutingJob} {p₀ pool q : Pool} {n : Nat}

theorem reserves_of_reserve? {s : Symbol} {ticket : Ticket} (h : pool.Distinct)
    (hr : job.reserve? pool n s = some (ticket, q)) : pool.Reserves ticket q := by
  rcases Option.or_eq_some_iff.1 hr with hr | ⟨-, hr⟩
  · obtain ⟨handle, -, hr⟩ := Option.bind_eq_some_iff.1 hr
    exact Pool.reserves_of_reserveHandle? h hr
  · exact Pool.reserves_of_reserve? h hr

section Lookup

variable {isReset : Bool} {operands : List Symbol} {cells : List Cell} {tickets tickets' : List Ticket}
  {m m' : Mapping} {found : Operands}

/-- What each reservation keeps holds after all operands were looked for, whether or not they were found. -/
theorem resolve_keeps {P : List Ticket → Mapping → Prop}
    (hreserve : ∀ tickets m s k q, P tickets m → job.reserve? m.pool n s = some (k, q) →
      P (tickets ++ [k]) { m with pool := q })
    (h : P tickets m) (hr : job.resolve n isReset operands cells tickets m = (found, tickets', m')) :
    P tickets' m' := by
  induction operands generalizing cells tickets m with
  | nil =>
      obtain ⟨-, rfl, rfl⟩ := by simpa [resolve] using hr
      exact h
  | cons s rest ih =>
      rw [resolve] at hr
      split at hr
      · exact ih h hr
      split at hr
      · cases hr
        exact h
      split at hr
      · exact ih h hr
      split at hr
      · cases hr
        exact h
      · next ticket q hticket =>
          have hq := hreserve _ _ _ _ _ h hticket
          dsimp only at hr
          split at hr
          · exact ih hq hr
          · cases hr
            exact hq

/-- Whether or not all operands are found, the tickets are what was reserved on the way. -/
theorem resolve_pending (h : Pool.Pending p₀ tickets m.pool)
    (hr : job.resolve n isReset operands cells tickets m = (found, tickets', m')) :
    m' = { m with pool := m'.pool } ∧ Pool.Pending p₀ tickets' m'.pool := by
  refine resolve_keeps (P := fun tickets m' => m' = { m with pool := m'.pool } ∧
    Pool.Pending p₀ tickets m'.pool) ?_ ⟨rfl, h⟩ hr
  rintro tickets m' s k q ⟨hm, hpending⟩ hk
  refine ⟨?_, hpending.reserve (reserves_of_reserve? hpending.distinct hk)⟩
  rw [hm]

end Lookup

theorem rollback_resolve {f : Fabric} {isReset : Bool} {operands : List Symbol} {found : Operands}
    {tickets : List Ticket} {m : Mapping} (h : f.mapping.pool.Distinct)
    (hr : job.resolve n isReset operands [] [] f.mapping = (found, tickets, m)) :
    Fabric.rollback { f with mapping := m } tickets = f := by
  obtain ⟨hm, hpending⟩ := resolve_pending h.pending hr
  show Fabric.mk f.grid { m with pool := m.pool.releaseAll tickets } f.teleports = f
  rw [hpending.releaseAll_eq, hm]

end RoutingJob

/-- A gate that has to wait or cannot be mapped leaves the locks, the pool and the teleports as they were,
however many factories were reserved for it before something was missing. -/
theorem refused_gate_keeps_fabric {job : RoutingJob} {f f' : Fabric} {n t : Nat}
    {result : Except CompileError (Option Route)} (hdistinct : f.mapping.pool.Distinct)
    (htry : job.tryRoute f n t = .ok (f', result)) (hrefused : ∀ r, result ≠ .ok (some r)) :
    f' = f := by
  rcases RoutingJob.tryRoute_refused htry hrefused with rfl | ⟨g, operands, tickets, m, hres, rfl⟩
  · rfl
  · exact RoutingJob.rollback_resolve hdistinct hres

namespace Shortage

/-- A gate on three factories where the pool has two. -/
def circuit : Circuit :=
  Circuit.empty.append (.joint "ccz" [.factory "T" 0, .factory "T" 1, .factory "T" 2] 1)

def pool : Pool := ⟨[⟨0, "T", ⟨0, 0⟩, 2, 0, .free⟩, ⟨1, "T", ⟨0, 2⟩, 3, 5, .free⟩]⟩

/-- The schedule wants the second factory, so the two are reserved out of their order. -/
def job : RoutingJob := ⟨circuit, ⟨1, 1, [[0]], [0], [1], [some 1]⟩, {}, []⟩

def fabric : Fabric := ⟨⟨1, 3, #[], []⟩, ⟨.empty, [], pool⟩, []⟩

end Shortage

theorem shortage_keeps_fabric : Shortage.fabric.mapping.pool.Distinct ∧
    (Shortage.job.resolve 0 false [.factory "T" 0, .factory "T" 1, .factory "T" 2] [] []
      Shortage.fabric.mapping).2.1 = [⟨1, .factory "T" 0⟩, ⟨0, .factory "T" 1⟩] ∧
    ∃ f', Shortage.job.tryRoute Shortage.fabric 0 0 = .ok (f', .ok none) ∧ f' = Shortage.fabric := by
  have hdistinct : Shortage.fabric.mapping.pool.Distinct := by decide +kernel
  have hresult : (do return (← Shortage.job.tryRoute Shortage.fabric 0 0).2) = .ok (.ok none) := by
    decide +kernel
  obtain ⟨⟨f', result⟩, htry, hresult⟩ := bind_eq_ok_iff.1 hresult
  cases hresult
  refine ⟨hdistinct, by decide +kernel, f', htry, ?_⟩
  exact refused_gate_keeps_fabric hdistinct htry (by simp)

end SurfaceFabric
