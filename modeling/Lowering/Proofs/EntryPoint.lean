import Lowering.Proofs.Follows.Entry
import Lowering.Proofs.Rest

/-!
The entry point, which comes last. Its code fits the program as that of every other function does, so the
program can be linked.
-/
namespace Lowering.Entry

open Emit

variable {s t s' t' : State} {f : Nat} {g : Func}

/-- The state in which an action runs with a cursor of its own in a function. -/
def bared (s : State) (f : Nat) : State :=
  { s with
    program := { s.program with cursors := s.program.cursors.push { func := f } }
    cursor := s.program.cursors.size
    lowerer := .bare }

theorem extends_bared (s : State) (f : Nat) : s.program.Extends (bared s f).program :=
  Program.extends_cursors fun _ c hc => ⟨c, Program.getElem?_push_of_some hc, rfl⟩

theorem asBare_eq_ok {α : Type} {x : Emit α} {a : α} :
    asBare f x s = .ok a s' ↔ ∃ t, x (bared s f) = .ok a t ∧ s' = { t with cursor := s.cursor, lowerer := s.lowerer } := by
  have hcursor : build (Program.newCursor f) s = .ok s.program.cursors.size
      (s.withProgram { s.program with cursors := s.program.cursors.push { func := f } }) := rfl
  rw [asBare, bind_run_of_ok hcursor, get_bind_run]
  change restoring _ _ { s with program := _, lowerer := .bare } = _ ↔ _
  simp only [restoring_eq_ok, withCursor_eq_ok]
  constructor
  · rintro ⟨_, ⟨t, hx, rfl⟩, rfl⟩
    exact ⟨t, hx, rfl⟩
  · rintro ⟨t, hx, rfl⟩
    exact ⟨_, ⟨t, hx, rfl⟩, rfl⟩

theorem mainBody_eq_ok (h : mainBody s = .ok () s') :
    ∃ s1 s2 s3, startUp s = .ok () s1 ∧ fill s1.program.constants s1 = .ok () s2 ∧
      registerFiles s2 = .ok () s3 ∧ handOver s3 = .ok () s' := by
  obtain ⟨_, s1, h1, h⟩ := bind_eq_ok.1 h
  obtain ⟨_, s2, h2, h⟩ := bind_eq_ok.1 h
  obtain ⟨_, s3, h3, h4⟩ := bind_eq_ok.1 h
  rw [fillConstants, get_bind_run] at h2
  exact ⟨s1, s2, s3, h1, h2, h3, h4⟩

/-- The function of the entry point has been declared. -/
structure Declares (f : Nat) (g : Func) (s t : State) : Prop where
  sound : t.program.Sound
  grown : s.program.Grown t.program
  lawful : t.program.Lawful Arity t.program.HasStruct
  func : t.program.funcs[f]? = some g
  params : g.params.size = 2
  before : ∀ (j : Nat) (h : Func), t.program.funcs[j]? = some h → s.program.funcs[j]? = some h ∨ h.Declared

theorem declares_of_ok (hs : s.Rested)
    (h : external "main" .int32 [.int32, MachineType.int8Ptr.pointerTo] s = .ok f t) : ∃ g, Declares f g s t := by
  obtain ⟨p, hfunc, rfl⟩ := build_eq_ok.1 h
  obtain ⟨hp, hgrown⟩ := Program.Request.extends_of_ok hfunc hs.sound
  obtain ⟨g, hg, hname⟩ := Program.func_named hs.sound hfunc
  have hlawful : p.Lawful Arity s.program.HasStruct := by
    have hint : MachineType.int32.Within s.program.HasStruct :=
      MachineType.within_of_plain (by decide) rfl rfl rfl
    have hbyte : MachineType.int8.Within s.program.HasStruct :=
      MachineType.within_of_plain (by decide) rfl rfl rfl
    refine hs.lawful.func (by exact fun k hk => Arity.entry.unique hk) hint ?_ hfunc
    simp only [List.forall_mem_cons]
    exact ⟨hint, hbyte.pointerTo.pointerTo, by simp⟩
  refine ⟨g, hp, hgrown, hgrown.hasStruct ▸ hlawful, hg, ?_, (Program.Request.kept hs.sound hfunc).added⟩
  exact hlawful.arity f g 2 hg (hname ▸ .entry)

theorem Declares.complete (hd : Declares f g s t) (hs : s.Rested) : g.Complete s.program :=
  (hd.before f g hd.func).elim (hs.complete f g) (·.complete _)

theorem Declares.extends_bared (hd : Declares f g s t) :
    (bared t f).program.Sound ∧ t.program.Grown (bared t f).program :=
  Entry.extends_bared t f hd.sound

/-- A run that emits the entry point, up to a final program. -/
theorem Declares.exists_replay (hd : Declares f g s t) (hs : s.Rested) {p : Program} (hp : p.Sound)
    (hgrown : (bared t f).program.Grown p) :
    ∃ r : Replay, r.arities = .ofProgram ∧ r.start = bared t f ∧ r.final = p ∧ r.home = f ∧ r.begun = g ∧
      r.first = g.blocks.size ∧ r.Ready := by
  have hcomplete := hd.complete hs
  obtain ⟨hsound, hbared⟩ := hd.extends_bared
  obtain ⟨last, hlast, hgl⟩ := hgrown.funcs f g hd.func
  have htwo : 2 ≤ last.nextValue := by
    have := hcomplete.numbered.params_le
    have := hgl.nextValue
    have := hd.params
    omega
  have hstructs : p.HasStruct = t.program.HasStruct := (hbared.trans hgrown).hasStruct
  let r : Replay := {
    arities := .ofProgram, start := bared t f, final := p, sound := hp, grown := hgrown, home := f, begun := g
    begun_eq := hd.func, last := last, last_eq := hlast, two_le := htwo
    struct_zero := by
      rw [hstructs, hd.grown.hasStruct]
      exact hs.laid.zero
    struct_of := by
      rw [hgrown.structs, hstructs]
      exact hd.lawful.structs
    first := g.blocks.size, impl := 0, scope := t.scopes.size }
  refine ⟨r, rfl, rfl, rfl, rfl, rfl, rfl, ?_⟩
  exact {
    sound := hsound
    lawful := hstructs ▸ hd.lawful.of_grown hbared rfl rfl
    numbered := hcomplete.numbered
    first_le := Nat.le_refl _
    done := fun k b _ hb => hcomplete.done k b hb
    fresh := fun k b hk hb => absurd (Array.getElem?_eq_some_iff.1 hb).1 (Nat.not_lt.2 hk)
    cursor := ⟨_, Array.getElem?_push_size, rfl, .none⟩
    own := fun hbare => absurd rfl hbare
    scope := fun xs hxs => absurd (Array.getElem?_eq_some_iff.1 hxs).1 (Nat.lt_irrefl _)
    impl := fun hbare => absurd rfl hbare
    tree := nofun
    unstacked := nofun }

theorem Declares.linked {r : Replay} (hd : Declares r.home r.begun s t) (hs : s.Rested)
    (harities : r.arities = .ofProgram) (hstart : r.start = bared t r.home) (hfirst : r.first = r.begun.blocks.size)
    (hst : r.pairing.Paired s' t') (hfinal : s'.program = r.final) : r.final.Linked := by
  have hbared : s.program.Grown r.start.program := hstart ▸ hd.grown.trans hd.extends_bared.2
  refine ⟨r.sound, ?_, hs.laid.of_grown (hbared.trans r.grown), fun j h hh => ?_⟩
  · have hlawful := hst.program.lawful trivial
    rwa [show r.likeness.arity = Arity from congrArg Arities.takes harities, hfinal] at hlawful
  · by_cases hj : j = r.home
    · subst hj
      cases hh.symm.trans r.last_eq
      refine (hd.complete hs).linked_last (fun k b hb => ?_) hbared (.refl _) hfirst hst hfinal
      exact ((hd.sound.funcs _ _ hd.func).blocks k b hb).2
    · refine (hs.complete_other hbared (fun k g _ hg => ?_) hst hfinal hj hh).toLinked
      rw [hstart] at hg
      exact hd.before k g hg

/-- From rest, a completed entry point makes a program that can be linked. -/
theorem emitMain_linked (hs : s.Rested) (h : emitMain s = .ok () s') : s'.program.Linked := by
  obtain ⟨f, t, hexternal, h⟩ := bind_eq_ok.1 h
  obtain ⟨g, hd⟩ := declares_of_ok hs hexternal
  obtain ⟨s4, hbody, rfl⟩ := asBare_eq_ok.1 h
  obtain ⟨s1, s2, s3, h1, h2, h3, h4⟩ := mainBody_eq_ok hbody
  obtain ⟨hsound1, hgrown1⟩ := Grows.extends_of_ok h1 hd.extends_bared.1
  obtain ⟨hsound2, hgrown2⟩ := Grows.extends_of_ok h2 hsound1
  obtain ⟨hsound3, hgrown3⟩ := Grows.extends_of_ok h3 hsound2
  obtain ⟨hsound4, hgrown4⟩ := Grows.extends_of_ok h4 hsound3
  have hafter2 := hgrown3.trans hgrown4
  have hafter1 := hgrown2.trans hafter2
  obtain ⟨r, harities, hstart, hfinal, rfl, rfl, hfirst, hready⟩ :=
    hd.exists_replay hs hsound4 (hgrown1.trans hafter1)
  have : OfBare r.likeness := by
    constructor <;> simp only [Replay.likeness, hstart] <;> nofun
  rw [← hstart] at h1
  rw [← hfinal] at hgrown4 hafter1 hafter2
  -- the constants are those of the pool at this point, so both runs fill the same ones
  obtain ⟨t1, hst1⟩ := paired_of_ok (d := r.pairing) hready.paired h1 hafter1
  obtain ⟨t2, hst2⟩ := paired_of_ok (d := r.pairing) hst1 h2 hafter2
  obtain ⟨t3, hst3⟩ := paired_of_ok (d := r.pairing) hst2 h3 hgrown4
  obtain ⟨t4, hst4⟩ := paired_of_ok (d := r.pairing) hst3 h4 (hfinal ▸ .refl _)
  change s4.program.Linked
  rw [← hfinal]
  exact hd.linked hs harities hstart hfirst hst4 hfinal.symm

end Lowering.Entry
