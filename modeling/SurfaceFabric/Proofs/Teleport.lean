import Mathlib.Data.List.Basic
import SurfaceFabric.Routing

/-!
Recording teleports. Whatever was recorded before lives on in a teleport that includes it, and teleports
of one window that share an endpoint end up in the same one.
-/

namespace SurfaceFabric

@[simp] theorem mem_appendNew {α : Type} [DecidableEq α] {a : α} {l m : List α} :
    a ∈ appendNew l m ↔ a ∈ l ∨ a ∈ m := by
  unfold appendNew
  induction m generalizing l with
  | nil => simp
  | cons b m ih =>
      rw [List.foldl_cons, ih, List.mem_cons]
      by_cases h : b ∈ l
      · rw [if_pos h]
        constructor
        · rintro (ha | ha)
          · exact .inl ha
          · exact .inr (.inr ha)
        · rintro (ha | rfl | ha)
          · exact .inl ha
          · exact .inl h
          · exact .inr ha
      · rw [if_neg h, List.mem_append, List.mem_singleton, or_assoc]

theorem perm_cons_swapRemove {α : Type} {l : List α} {i : Nat} {a : α} (h : l[i]? = some a) :
    l.Perm (a :: swapRemove l i) := by
  obtain ⟨hi, rfl⟩ := List.getElem?_eq_some_iff.1 h
  obtain ⟨before, a, after, rfl, rfl⟩ : ∃ before a after, l = before ++ a :: after ∧
      i = before.length :=
    ⟨l.take i, l[i], l.drop (i + 1), by simp, by simp; omega⟩
  rw [List.getElem_append_right (Nat.le_refl _)]
  simp only [Nat.sub_self, List.getElem_cons_zero]
  refine List.perm_middle.trans (List.Perm.cons a ?_)
  rcases List.eq_nil_or_concat after with rfl | ⟨mid, last, rfl⟩
  · simp [swapRemove]
  · have hlast : (before ++ a :: mid.concat last).getLast? = some last := by
      rw [List.concat_eq_append, ← List.cons_append, ← List.append_assoc, List.getLast?_concat]
    have hrest : swapRemove (before ++ a :: mid.concat last) before.length =
        before ++ last :: mid := by
      have hset : (before ++ a :: mid.concat last).set before.length last =
          before ++ last :: mid ++ [last] := by
        simp [List.set_append_right]
      unfold swapRemove
      rw [hlast]
      dsimp only
      rw [hset, List.dropLast_concat]
    rw [hrest, List.concat_eq_append]
    exact (List.perm_append_singleton last mid).append_left before

namespace Teleport

theorem sharesEndpoint_iff {a b : Teleport} : a.sharesEndpoint b = true ↔
    (a.start = b.start ∧ a.stop = b.stop) ∧ ∃ c ∈ a.endpoints, c ∈ b.endpoints := by
  simp [sharesEndpoint]

/-- Recording ends when nothing recorded shares an endpoint with the teleport at hand; until then some
member that does is taken out and absorbs it. -/
theorem record_induction {motive : List Teleport → Teleport → Prop}
    (apart : ∀ ts t, (∀ r ∈ ts, ¬r.sharesEndpoint t = true) → record ts t = ts ++ [t] →
      motive ts t)
    (merge : ∀ ts t r rest, ts.Perm (r :: rest) → r.sharesEndpoint t = true →
      record ts t = record rest (r.absorb t) → motive rest (r.absorb t) → motive ts t)
    (ts : List Teleport) (t : Teleport) : motive ts t := by
  induction ts, t using record.induct with
  | case1 ts t h =>
      refine apart ts t (by simpa using h) ?_
      rw [record]
      split <;> simp_all
  | case2 ts t i h hnone =>
      obtain ⟨hlt, -⟩ := List.findIdx?_eq_some_iff_getElem.1 h
      simp [hlt] at hnone
  | case3 ts t i h r hr ih =>
      obtain ⟨hlt, hshares, -⟩ := List.findIdx?_eq_some_iff_getElem.1 h
      have heq : record ts t = record (swapRemove ts i) (r.absorb t) := by
        rw [record]
        split <;> simp_all
      refine merge ts t r _ (perm_cons_swapRemove hr) ?_ heq ih
      rw [List.getElem?_eq_getElem hlt, Option.some.injEq] at hr
      exact hr ▸ hshares

/-- The same window, and all of the first in the second. -/
structure Within (a b : Teleport) : Prop where
  start_eq : a.start = b.start
  stop_eq : a.stop = b.stop
  gates : ∀ n ∈ a.gates, n ∈ b.gates
  endpoints : ∀ c ∈ a.endpoints, c ∈ b.endpoints

theorem Within.refl (a : Teleport) : a.Within a := ⟨rfl, rfl, fun _ h => h, fun _ h => h⟩

theorem Within.trans {a b c : Teleport} (hab : a.Within b) (hbc : b.Within c) : a.Within c :=
  ⟨hab.start_eq.trans hbc.start_eq, hab.stop_eq.trans hbc.stop_eq,
    fun n h => hbc.gates n (hab.gates n h), fun c h => hbc.endpoints c (hab.endpoints c h)⟩

theorem within_absorb_left (a b : Teleport) : a.Within (a.absorb b) :=
  ⟨rfl, rfl, fun _ h => mem_appendNew.2 (.inl h), fun _ h => mem_appendNew.2 (.inl h)⟩

theorem within_absorb_right {a b : Teleport} (h : a.sharesEndpoint b = true) :
    b.Within (a.absorb b) := by
  obtain ⟨⟨hstart, hstop⟩, -⟩ := sharesEndpoint_iff.1 h
  exact ⟨hstart.symm, hstop.symm, fun _ h => mem_appendNew.2 (.inr h),
    fun _ h => mem_appendNew.2 (.inr h)⟩

/-- Recording loses nothing. -/
theorem exists_within_record (ts : List Teleport) (t : Teleport) :
    (∃ b ∈ record ts t, t.Within b) ∧ ∀ a ∈ ts, ∃ b ∈ record ts t, a.Within b := by
  induction ts, t using record_induction with
  | apart ts t _ heq =>
      rw [heq]
      exact ⟨⟨t, by simp, .refl t⟩, fun a ha => ⟨a, by simp [ha], .refl a⟩⟩
  | merge ts t r rest hperm hshares heq ih =>
      rw [heq]
      obtain ⟨⟨b, hb, hwithin⟩, hrest⟩ := ih
      refine ⟨⟨b, hb, (within_absorb_right hshares).trans hwithin⟩, ?_⟩
      intro a ha
      rcases List.mem_cons.1 (hperm.mem_iff.1 ha) with rfl | ha
      · exact ⟨b, hb, (within_absorb_left a t).trans hwithin⟩
      · exact hrest a ha

/-- What holds of all recorded teleports and of a new one, and passes to merged ones, holds of all
afterwards. -/
theorem forall_mem_record {p : Teleport → Prop}
    (habsorb : ∀ a b, a.sharesEndpoint b = true → p a → p b → p (a.absorb b))
    {ts : List Teleport} {t : Teleport} (hts : ∀ a ∈ ts, p a) (ht : p t) :
    ∀ a ∈ record ts t, p a := by
  induction ts, t using record_induction with
  | apart ts t _ heq =>
      rw [heq]
      intro a ha
      rcases List.mem_append.1 ha with ha | ha
      · exact hts a ha
      · exact List.mem_singleton.1 ha ▸ ht
  | merge ts t r rest hperm hshares heq ih =>
      rw [heq]
      refine ih (fun a ha => hts a (hperm.mem_iff.2 (by simp [ha]))) ?_
      exact habsorb r t hshares (hts r (hperm.mem_iff.2 (by simp))) ht

theorem exists_within_recordAll {ts new : List Teleport} {a : Teleport} (ha : a ∈ ts) :
    ∃ b ∈ new.foldl record ts, a.Within b := by
  induction new generalizing ts a with
  | nil => exact ⟨a, ha, .refl a⟩
  | cons t new ih =>
      obtain ⟨b, hb, hab⟩ := (exists_within_record ts t).2 a ha
      obtain ⟨c, hc, hbc⟩ := ih hb
      exact ⟨c, hc, hab.trans hbc⟩

theorem forall_mem_recordAll {p : Teleport → Prop}
    (habsorb : ∀ a b, a.sharesEndpoint b = true → p a → p b → p (a.absorb b))
    {ts new : List Teleport} (hts : ∀ a ∈ ts, p a) (hnew : ∀ t ∈ new, p t) :
    ∀ a ∈ new.foldl record ts, p a := by
  induction new generalizing ts with
  | nil => exact hts
  | cons t new ih =>
      exact ih (forall_mem_record habsorb hts (hnew t (by simp)))
        fun b hb => hnew b (by simp [hb])

end Teleport

namespace CellLock

variable {l : CellLock} {n : Nat} {a b t : Teleport} {ts new : List Teleport}

def Meets (l : CellLock) (tp : Teleport) : Prop :=
  l.cell ∈ tp.endpoints ∧ l.start < tp.stop ∧ tp.start < l.stop

def Agrees (l : CellLock) (tp : Teleport) : Prop :=
  l.Meets tp → l.start = tp.start ∧ l.stop = tp.stop

/-- If the lock of a gate meets a teleport at an endpoint, they have the same window and the teleport
serves the gate. -/
def Joins (l : CellLock) (n : Nat) (tp : Teleport) : Prop :=
  l.Meets tp → (l.start = tp.start ∧ l.stop = tp.stop) ∧ n ∈ tp.gates

theorem meets_absorb (h : a.sharesEndpoint b = true) :
    l.Meets (a.absorb b) ↔ l.Meets a ∨ l.Meets b := by
  obtain ⟨⟨hstart, hstop⟩, -⟩ := Teleport.sharesEndpoint_iff.1 h
  simp only [Meets, Teleport.absorb, mem_appendNew, hstart, hstop]
  tauto

theorem Meets.mono (h : l.Meets a) (hab : a.Within b) : l.Meets b := by
  obtain ⟨hcell, hstart, hstop⟩ := h
  exact ⟨hab.endpoints _ hcell, hab.stop_eq ▸ hstart, hab.start_eq ▸ hstop⟩

theorem Agrees.absorb (h : a.sharesEndpoint b = true)
    (ha : l.Agrees a) (hb : l.Agrees b) : l.Agrees (a.absorb b) := by
  intro hmeets
  obtain ⟨⟨hstart, hstop⟩, -⟩ := Teleport.sharesEndpoint_iff.1 h
  rcases (meets_absorb h).1 hmeets with hm | hm
  · exact ha hm
  · obtain ⟨hs, hp⟩ := hb hm
    exact ⟨hs.trans hstart.symm, hp.trans hstop.symm⟩

/-- A lock joined to all that is recorded stays so, if a new teleport that it meets serves its gate or
is about to be merged with one that does. -/
theorem Joins.record (hts : ∀ a ∈ ts, l.Joins n a) (ht : l.Agrees t)
    (hgate : l.Meets t → n ∈ t.gates ∨ ∃ a ∈ ts, l.Meets a) :
    ∀ a ∈ Teleport.record ts t, l.Joins n a := by
  induction ts, t using Teleport.record_induction with
  | apart ts t hapart heq =>
      rw [heq]
      intro a ha
      rcases List.mem_append.1 ha with ha | ha
      · exact hts a ha
      · rw [List.mem_singleton.1 ha]
        intro hmeets
        obtain ⟨hs, hp⟩ := ht hmeets
        refine ⟨⟨hs, hp⟩, (hgate hmeets).resolve_right ?_⟩
        rintro ⟨b, hb, hmeetsb⟩
        obtain ⟨⟨hsb, hpb⟩, -⟩ := hts b hb hmeetsb
        exact hapart b hb (Teleport.sharesEndpoint_iff.2
          ⟨⟨hsb.symm.trans hs, hpb.symm.trans hp⟩, l.cell, hmeetsb.1, hmeets.1⟩)
  | merge ts t r rest hperm hshares heq ih =>
      rw [heq]
      have hmem (a : Teleport) : a ∈ ts ↔ a = r ∨ a ∈ rest := by
        rw [hperm.mem_iff, List.mem_cons]
      obtain ⟨⟨hstart, hstop⟩, -⟩ := Teleport.sharesEndpoint_iff.1 hshares
      have hjoins := hts r ((hmem r).2 (.inl rfl))
      refine ih (fun a ha => hts a ((hmem a).2 (.inr ha))) ?_ ?_
      · intro hmeets
        rcases (meets_absorb hshares).1 hmeets with hm | hm
        · exact (hjoins hm).1
        · obtain ⟨hs, hp⟩ := ht hm
          exact ⟨hs.trans hstart.symm, hp.trans hstop.symm⟩
      · intro hmeets
        by_cases hr : l.Meets r
        · exact .inl (mem_appendNew.2 (.inl (hjoins hr).2))
        · have hm := ((meets_absorb hshares).1 hmeets).resolve_left hr
          rcases hgate hm with hn | ⟨a, ha, hma⟩
          · exact .inl (mem_appendNew.2 (.inr hn))
          · rcases (hmem a).1 ha with rfl | ha
            · exact absurd hma hr
            · exact .inr ⟨a, ha, hma⟩

/-- Once a teleport of the gate itself that the lock meets is recorded, the lock is joined to all. -/
theorem Agrees.joins_record (hts : ∀ a ∈ ts, l.Agrees a) (ht : l.Agrees t) (hmeets : l.Meets t)
    (hgate : n ∈ t.gates) :
    ∀ a ∈ Teleport.record ts t, l.Joins n a := by
  induction ts, t using Teleport.record_induction with
  | apart ts t hapart heq =>
      rw [heq]
      obtain ⟨hs, hp⟩ := ht hmeets
      intro a ha
      rcases List.mem_append.1 ha with ha | ha
      · intro hm
        obtain ⟨hsa, hpa⟩ := hts a ha hm
        exact absurd (Teleport.sharesEndpoint_iff.2
          ⟨⟨hsa.symm.trans hs, hpa.symm.trans hp⟩, l.cell, hm.1, hmeets.1⟩) (hapart a ha)
      · rw [List.mem_singleton.1 ha]
        exact fun _ => ⟨⟨hs, hp⟩, hgate⟩
  | merge ts t r rest hperm hshares heq ih =>
      rw [heq]
      have hrest (a : Teleport) (ha : a ∈ rest) : l.Agrees a :=
        hts a (hperm.mem_iff.2 (by simp [ha]))
      refine ih hrest ?_ ((meets_absorb hshares).2 (.inr hmeets)) (mem_appendNew.2 (.inr hgate))
      obtain ⟨⟨hstart, hstop⟩, -⟩ := Teleport.sharesEndpoint_iff.1 hshares
      obtain ⟨hs, hp⟩ := ht hmeets
      exact fun _ => ⟨hs.trans hstart.symm, hp.trans hstop.symm⟩

theorem Joins.recordAll (hts : ∀ a ∈ ts, l.Joins n a) (hnew : ∀ t ∈ new, l.Agrees t)
    (hgate : ∀ t ∈ new, l.Meets t → n ∈ t.gates ∨ ∃ a ∈ ts, l.Meets a) :
    ∀ a ∈ new.foldl Teleport.record ts, l.Joins n a := by
  induction new generalizing ts with
  | nil => exact hts
  | cons t new ih =>
      refine ih (Joins.record hts (hnew t (by simp)) (hgate t (by simp)))
        (fun b hb => hnew b (by simp [hb])) ?_
      intro b hb hmeets
      rcases hgate b (by simp [hb]) hmeets with hn | ⟨a, ha, hma⟩
      · exact .inl hn
      · obtain ⟨a', ha', hwithin⟩ := (Teleport.exists_within_record ts t).2 a ha
        exact .inr ⟨a', ha', hma.mono hwithin⟩

/-- A lock of a gate is joined to all that is recorded, once all teleports of the gate are and it meets
one of them. -/
theorem Agrees.joins_recordAll (hts : ∀ a ∈ ts, l.Agrees a) (hnew : ∀ t ∈ new, l.Agrees t ∧ n ∈ t.gates)
    (hmeets : ∃ t ∈ new, l.Meets t) : ∀ a ∈ new.foldl Teleport.record ts, l.Joins n a := by
  obtain ⟨t, ht, hmt⟩ := hmeets
  obtain ⟨before, after, rfl⟩ := List.append_of_mem ht
  have hbefore : ∀ a ∈ before.foldl Teleport.record ts, l.Agrees a :=
    Teleport.forall_mem_recordAll (fun _ _ h => .absorb h) hts fun b hb => (hnew b (by simp [hb])).1
  have hjoins := Agrees.joins_record hbefore (hnew t ht).1 hmt (hnew t ht).2
  rw [List.foldl_append, List.foldl_cons]
  exact Joins.recordAll hjoins (fun b hb => (hnew b (by simp [hb])).1)
    fun b hb _ => .inl (hnew b (by simp [hb])).2

end CellLock

end SurfaceFabric
