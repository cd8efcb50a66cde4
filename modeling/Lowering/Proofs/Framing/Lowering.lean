import Lowering.Proofs.Regime.Lowering

/-!
The lowering of a tree works on one function only, whether it completes or not.
-/
namespace Lowering

/-- A function and its cursor. -/
structure Home where
  func : Nat
  cursor : Nat

/-- A tree is being lowered to a function: the cursor in hand is that of the function and stands in a block
of it, if in any, and so does the entry block. -/
structure State.Within (home : Home) (s : State) : Prop where
  lowerer : s.lowerer = .tree
  cursor : s.cursor = home.cursor
  entry : s.tree.entry.func = home.func
  code : (s.impls[s.tree.impl]?.getD default).code = some home.func
  func : ∃ f : Func, s.program.funcs[home.func]? = some f ∧ f.cursor = home.cursor
  place : ∃ c : Cursor, s.program.cursors[home.cursor]? = some c ∧ c.func = home.func ∧
    ∀ r, c.block = some r → r.func = home.func

namespace State.Within

variable {home : Home} {s t : State}

theorem here (hs : s.Within home) : s.here.func = home.func ∧ ∀ r, s.here.block = some r → r.func = home.func := by
  obtain ⟨c, hc, hfunc, hblock⟩ := hs.place
  rw [State.here, hs.cursor, hc]
  exact ⟨hfunc, hblock⟩

theorem of_adds (hs : s.Within home) {q : Program} (h : s.program.Adds q) : (s.withProgram q).Within home := by
  obtain ⟨f, hf, hcursor⟩ := hs.func
  obtain ⟨c, hc, hplace⟩ := hs.place
  exact { hs with
    func := ⟨f, Program.getElem?_mono h.funcs hf, hcursor⟩
    place := ⟨c, Program.getElem?_mono h.cursors hc, hplace⟩ }

theorem mapFunc (hs : s.Within home) {i : Nat} (hi : i = home.func) {g : Func → Func}
    (hg : ∀ f : Func, f.SameHead (g f)) : (s.withProgram (s.program.mapFunc i g)).Within home := by
  subst hi
  obtain ⟨f, hf, hcursor⟩ := hs.func
  exact { hs with func := ⟨g f, Program.getElem?_mapFunc_self hf, (hg f).cursor.trans hcursor⟩ }

theorem moveTo (hs : s.Within home) {ref : Option BlockRef} (href : ∀ r, ref = some r → r.func = home.func) :
    (s.withProgram { s.program with
      cursors := s.program.cursors.modify s.cursor fun c => { c with block := ref } }).Within home := by
  obtain ⟨c, hc, hfunc, -⟩ := hs.place
  refine { hs with place := ⟨{ c with block := ref }, ?_, hfunc, href⟩ }
  change (s.program.cursors.modify s.cursor _)[home.cursor]? = _
  rw [Array.getElem?_modify, if_pos hs.cursor, hc]
  rfl

theorem of_same (hs : s.Within home) (hprogram : t.program = s.program) (hcursor : t.cursor = s.cursor)
    (hlowerer : t.lowerer = s.lowerer) (hentry : t.tree.entry = s.tree.entry) (himpl : t.tree.impl = s.tree.impl)
    (himpls : t.impls = s.impls) : t.Within home where
  lowerer := hlowerer.trans hs.lowerer
  cursor := hcursor.trans hs.cursor
  entry := hentry ▸ hs.entry
  code := by rw [himpls, himpl]; exact hs.code
  func := hprogram ▸ hs.func
  place := hprogram ▸ hs.place

end State.Within

/-- Of a program only one function changes. -/
def framing (home : Home) (p : Program) : Regime where
  Holds s := s.Within home ∧ p.Framed home.func s.program
  Room r := r.func = home.func
  Loose _ := True

instance (home : Home) (p : Program) : (framing home p).Lax := ⟨fun _ => trivial⟩

instance (home : Home) (p : Program) : (framing home p).Basic where
  lowerer hs := hs.1.lowerer
  entry hs := hs.1.entry
  stands hs hr := hs.1.here.2 _ hr
  adds hs h := ⟨hs.1.of_adds h, hs.2.trans h.framed⟩
  mapBlock g hs hr :=
    have hhead : ∀ f : Func, f.SameHead { f with blocks := f.blocks.modify _ g } := fun _ => ⟨rfl, rfl, rfl, rfl, rfl, rfl⟩
    ⟨hs.1.mapFunc hr hhead, hs.2.trans (hr ▸ Program.framed_mapFunc _ hhead)⟩
  counted {s} hs :=
    have hhead : ∀ f : Func, f.SameHead { f with nextValue := f.nextValue + 1 } := fun _ => ⟨rfl, rfl, rfl, rfl, rfl, rfl⟩
    ⟨hs.1.mapFunc hs.1.here.1 hhead, hs.2.trans (hs.1.here.1 ▸ Program.framed_mapFunc _ hhead)⟩
  addBlock {s} label hs :=
    have hhead : ∀ f : Func, f.SameHead (f.addBlock label) := fun _ => ⟨rfl, rfl, rfl, rfl, rfl, rfl⟩
    ⟨⟨hs.1.mapFunc hs.1.here.1 hhead, hs.2.trans (hs.1.here.1 ▸ Program.framed_mapFunc _ hhead)⟩, hs.1.here.1⟩
  moveTo hs href := ⟨hs.1.moveTo href, hs.2.trans (Program.framed_cursors _ _)⟩
  beside hs hprogram hcursor hlowerer hentry himpl _ himpls _ _ :=
    ⟨hs.1.of_same hprogram hcursor hlowerer hentry himpl himpls, hprogram ▸ hs.2⟩
  addVariable _ _ hs := ⟨⟨{ hs.1 with }, hs.2⟩, trivial⟩
  setSlot _ hs _ := ⟨{ hs.1 with }, hs.2⟩
  setUsed _ _ hs := ⟨{ hs.1 with }, hs.2⟩

namespace Emit

variable {α : Type} {home : Home}

/-- Whatever becomes of the action, it works on one function only, with the cursor in hand. -/
class Frames (home : Home) (x : Emit α) : Prop where
  confined : ∀ s : State, s.Within home → (leftBy (x s)).Within home ∧
    s.program.Framed home.func (leftBy (x s)).program ∧ (leftBy (x s)).cursor = s.cursor

instance (x : Emit α) [h : ∀ p, Heeds (framing home p) x] : Frames home x := by
  refine ⟨fun s hs => ?_⟩
  obtain ⟨-, ⟨hwithin, hframed⟩, -⟩ := (h s.program).agree.left rfl not_false ⟨hs, .refl _ _⟩
  exact ⟨hwithin, hframed, hwithin.cursor.trans hs.cursor.symm⟩

end Emit

namespace Lower

open Emit

set_option synthInstance.maxSize 100000000

variable {α : Type} {home : Home} {p : Program}

/-- Under the regime a function is lowered with its own cursor. -/
class Owns (R : Regime) (home : Home) : Prop where
  kept : ¬R.Lost
  cursor {s : State} : R.Holds s → s.cursor = home.cursor
  fallen {s : State} : R.Fallen s → R.Fallen { s with cursor := home.cursor }
  func {s : State} : R.Holds s → ∃ (i : Nat) (f : Func), currentImpl s = .ok i s ∧
    (s.impls[i]?.getD default).code = some home.func ∧ s.program.funcs[home.func]? = some f ∧ f.cursor = home.cursor

instance : Owns (framing home p) home where
  kept := not_false
  cursor hs := hs.1.cursor
  fallen hs := ⟨{ hs.1 with cursor := rfl }, hs.2⟩
  func {s} hs := by
    obtain ⟨f, hf, hcursor⟩ := hs.1.func
    refine ⟨s.tree.impl, f, ?_, hs.1.code, hf, hcursor⟩
    rw [currentImpl, get_bind_run, hs.1.lowerer]
    rfl

section Owns

variable {R : Regime} [hR : Owns R home]

instance (x : Emit α) [hx : Heeds R x] : Heeds R (withCursor home.cursor x) := by
  refine ⟨fun s hs => ?_, fun _ h => absurd (R.loses h) hR.kept⟩
  have hrun : withCursor home.cursor x s = restoring (fun t => { t with cursor := s.cursor }) x s := by
    change restoring (fun t => { t with cursor := s.cursor }) x { s with cursor := home.cursor } = _
    rw [← hR.cursor hs]
  have hmatch := hx.agree.1 s hs
  rw [hrun, restoring, hR.cursor hs]
  cases hxs : x s with
  | ok a t =>
    rw [hxs] at hmatch
    have hcursor := hR.cursor hmatch.2.1
    have hsame : { t with cursor := home.cursor } = t := by rw [← hcursor]
    dsimp only
    rw [hsame]
    exact hmatch
  | error e t =>
    rw [hxs] at hmatch
    exact .inl ⟨rfl, hR.fallen (hmatch.resolve_right hR.kept).2⟩

theorem heeds_closeBlock [R.Computes] [R.Calls] [R.Branches] [Heeds R retVoid] {k : Nat} (hk : R.Room ⟨home.func, k⟩)
    (result : MachineType) : Heeds R (closeBlock home.cursor result ⟨home.func, k⟩) := by
  have hinside : Inside R ⟨home.func, k⟩ := ⟨hk⟩
  unfold closeBlock
  infer_instance

omit hR in
theorem heeds_closeBlocks (hR : Owns R home)
    (hclose : ∀ result k, Heeds R (closeBlock home.cursor result ⟨home.func, k⟩)) : Heeds R closeBlocks := by
  refine ⟨fun s hs => ?_, fun _ h => absurd (R.loses h) hR.kept⟩
  obtain ⟨i, f, himpl, hcode, hf, hcursor⟩ := hR.func hs
  have hof : implOf i s = .ok (s.impls[i]?.getD default) s := rfl
  rw [closeBlocks, bind_run_of_ok himpl, bind_run_of_ok hof, hcode]
  have hexpect : expect (some home.func) .noCodeFunction s = .ok home.func s := rfl
  rw [bind_run_of_ok hexpect, get_bind_run, hf]
  dsimp only [Option.getD_some]
  rw [hcursor]
  exact Agrees.agree.1 s hs

end Owns

instance : Heeds (framing home p) closeBlocks := heeds_closeBlocks inferInstance fun result _ => heeds_closeBlock rfl result

end Lower
end Lowering
