import Lowering.Proofs.Framing.Run

/-!
Room for variables. Whatever is lowered, a slot is requested in the entry block of the function, which stays open
until all code has been lowered and then goes on at the content block.
-/
namespace Lowering

open Emit

variable {s s' t : State} {i : Nat} {v : Visit}

namespace Lower

section Tree

variable [hv : Fact (v.lowerer = .tree)]

/-- What is known of a lowering changes, but not the function that it is for. -/
theorem heeds_modifyTree_visit {u : TreeFrame → TreeFrame}
    (hsite : ∀ f, (u f).impl = f.impl ∧ (u f).entry = f.entry ∧ (u f).content = f.content)
    (hkept : ∀ f r, r ∈ (u f).exits ∨ some r ∈ (u f).handlers → (r ∈ f.exits ∨ some r ∈ f.handlers) ∨ v.regime.Room r) :
    Heeds v.regime (modifyTree u) :=
  heeds_lasting fun {s _ _} hs h => by
    cases h
    have hl := hs.lowerer.trans hv.out
    refine hs.step (.beside rfl rfl ?_) rfl fun r hr => ?_
    · simp [State.site?, hl, hsite]
    · simp only [State.kept, hl, List.mem_append, List.mem_filterMap, id_eq, exists_eq_right] at hr ⊢
      exact hkept _ r hr

instance : v.regime.Notes where
  note {u} h := by
    have himpl := fun f => congrArg TreeFrame.impl (h f)
    have hentry := fun f => congrArg TreeFrame.entry (h f)
    have hcontent := fun f => congrArg TreeFrame.content (h f)
    have hexits := fun f => congrArg TreeFrame.exits (h f)
    have hhandlers := fun f => congrArg TreeFrame.handlers (h f)
    refine heeds_modifyTree_visit (fun f => ⟨himpl f, hentry f, hcontent f⟩) fun f r hr => .inl ?_
    rwa [← hexits f, ← hhandlers f]

instance : Loops v.regime := by
  refine .of_modifyTree (fun _ => ?_) (fun exit hexit => ?_) ?_ fun n => ⟨.get_bind fun s hs => ?_⟩
  · exact heeds_modifyTree_visit (fun _ => ⟨rfl, rfl, rfl⟩) fun _ _ => .inl
  · refine heeds_modifyTree_visit (fun _ => ⟨rfl, rfl, rfl⟩) fun f r hr => ?_
    rcases hr with hr | hr
    · rcases List.mem_cons.1 hr with rfl | hr
      · exact .inr hexit.room
      · exact .inl (.inl hr)
    · exact .inl (.inr hr)
  · exact heeds_modifyTree_visit (fun _ => ⟨rfl, rfl, rfl⟩) fun f r hr => .inl (hr.imp List.mem_of_mem_tail id)
  · cases hexits : s.tree.exits with
    | nil => exact Agrees.agree
    | cons exit rest =>
      have : Inside v.regime exit := ⟨hs.kept exit (by simp [State.kept, hs.lowerer.trans hv.out, hexits])⟩
      exact Agrees.agree

end Tree

/-- From rest, a completed lowering of a tree is a visit. -/
theorem lowerImpl_visited (hs : s.Rested) (h : lowerImpl i s = .ok () s') : ∃ v : Visit, v.impl = i ∧ v.Leads s s' := by
  obtain ⟨s1, s2, s3, s4, d, hstart, -, hvisit, hset, hbranch, hclose⟩ := lowerImpl_eq_ok.1 h
  obtain ⟨f, g, o, ho, hlowerer, htree, hbind⟩ := start_eq_ok hs.sound hstart
  let v : Visit := ⟨.tree, i, ⟨f, g.blocks.size⟩, g.cursor, none, s.program, o⟩
  have htreed : Fact (v.lowerer = .tree) := ⟨rfl⟩
  have ho' : o.Visiting v := ho.visiting hs (by rw [State.site?, hlowerer, htree]) (by rw [State.kept, hlowerer, htree]; rfl)
  have hs1 : s1.Visiting v := holds_of_ok (R := v.regime) ho' hbind
  have hs2 : s2.Visiting v := holds_of_ok (R := v.regime) hs1 hvisit
  obtain ⟨-, hentry, hcontent⟩ : s2.tree.impl = i ∧ s2.tree.entry = v.entry ∧ s2.tree.content = v.content := by
    have hsite := hs2.site
    rw [State.site?, hs2.lowerer.trans htreed.out] at hsite
    simpa [htreed.out] using hsite
  rw [hentry] at hset
  rw [hcontent] at hbranch
  exact ⟨v, rfl, rfl, rfl, ho', ⟨g, ho, rfl, rfl⟩, s2, hs2, bind_eq_ok.2 ⟨_, _, hset, bind_eq_ok.2 ⟨_, _, hbranch, hclose⟩⟩⟩

end Lower

/-- What is written to make room for a variable, from the value of a number on; it may begin as nothing. -/
def slotCode (type : MachineType) (nulled : Bool) (n : Nat) : List Instr :=
  .alloca type n :: if nulled then [.null type (n + 1), .store (.id (n + 1 : Nat)) (.id n) (n + 2)] else []

/-- A slot that is requested is made, while the entry block is open. -/
theorem State.Visits.exists_entryVar {g : Func} {type : MachineType} {nulled : Bool} (hs : s.Visits v)
    (hopen : s.program.OpenAt v.entry) (hg : s.program.funcs[v.entry.func]? = some g)
    (hwhole : ∀ e ∈ slotCode type nulled g.nextValue, e.Whole) :
    ∃ (t : State) (b c : Block), Emit.entryVar type nulled s = .ok (.id g.nextValue) t ∧
      s.program.blockAt v.entry = some b ∧ t.program.blockAt v.entry = some c ∧
      c.items.toList = b.items.toList ++ (slotCode type nulled g.nextValue).map .instr := by
  obtain ⟨b, hb, hend⟩ := hopen
  have hlocked : b.locked = false := by rw [(hs.sound.shaped hb).locked, hend]; rfl
  obtain ⟨body, hitems⟩ : ∃ body : List Instr, b.items.toList = body.map .instr := by
    obtain ⟨body, h⟩ | ⟨body, last, h⟩ := hs.sound.shaped hb <;> exact ⟨_, h.items⟩
  obtain ⟨s1, h1⟩ : ∃ s1, Emit.moveTo (some v.entry) s = .ok () s1 := ⟨_, rfl⟩
  obtain ⟨c, -, hc, hfunc⟩ := hs.here
  have hstand : Standing s.program s1 v.entry.func v.entry g.nextValue body false := by
    have hmoved := moveTo_eq_ok.1 h1
    refine ⟨by simp [(hs.moveTo h1).2, hc, hfunc], ⟨g, ?_, rfl⟩, ⟨b, ?_, hitems, hlocked⟩, fun r => ?_, ?_⟩ <;> rw [hmoved]
    · exact hg
    · exact hb
    · rfl
    · rfl
  have halloca := hwhole (.alloca type g.nextValue) List.mem_cons_self
  obtain ⟨s2, h2, hs2⟩ := hstand.exists_assign (.alloca type) halloca rfl
  cases nulled with
  | false =>
    obtain ⟨c, hc, hitems', -⟩ := hs2.block
    refine ⟨_, b, c, entryVar_eq_ok.2 ⟨_, _, _, hs.entryBlock, h1, bind_eq_ok.2 ⟨_, _, h2, rfl⟩, rfl⟩, hb, hc, ?_⟩
    simp [hitems', hitems, slotCode]
  | true =>
    obtain ⟨s3, h3, hs3⟩ := hs2.exists_assign (.null type) (hwhole _ (by simp [slotCode])) rfl
    obtain ⟨s4, h4, hs4⟩ := hs3.exists_assign (.store (.id (g.nextValue + 1 : Nat)) (.id g.nextValue)) (hwhole _ (by simp [slotCode])) rfl
    obtain ⟨c, hc, hitems', -⟩ := hs4.block
    have hbody : slotBody type true s1 = .ok (.id g.nextValue) s4 :=
      bind_eq_ok.2 ⟨_, _, h2, bind_eq_ok.2 ⟨_, _, h3, bind_eq_ok.2 ⟨(), _, map_eq_ok.2 ⟨_, h4, rfl⟩, rfl⟩⟩⟩
    refine ⟨_, b, c, entryVar_eq_ok.2 ⟨_, _, _, hs.entryBlock, h1, hbody, rfl⟩, hb, hc, ?_⟩
    simp [hitems', hitems, slotCode, Instr.isTerminator]

theorem Block.Shaped.exists_body {b : Block} {e : Instr} (hb : b.Shaped) (he : b.terminator? = some e) :
    ∃ body : List Instr, b.items.toList = (body ++ [e]).map .instr ∧ ∀ j ∈ body, j.isTerminator = false := by
  rcases hb with ⟨body, h⟩ | ⟨body, last, h⟩
  · rw [Block.terminator?_of_needsEnd (.inl ⟨body, h⟩) h.needsEnd] at he
    cases he
  · rw [Block.terminator?, h.items, List.findSome?_map, List.findSome?_append] at he
    have hnone : body.findSome? (Item.terminator? ∘ .instr) = none :=
      List.findSome?_eq_none_iff.2 fun j hj => by simp [Item.terminator?, (h.plain j hj).follows]
    simp only [hnone, Option.none_or, List.findSome?_cons, Function.comp_apply, Item.terminator?, h.final.ends] at he
    cases he
    exact ⟨body, h.items, fun j hj => (h.plain j hj).follows⟩

/-- An implementation has been lowered: its function was opened, with an entry block and a block that code begins in, code
was lowered up to a state and the function was closed. -/
structure SlotsMade (i : Nat) (s s' : State) (entry content : BlockRef) (o t : State) : Prop where
  code : (s'.impls[i]?.getD default).code = some entry.func
  opened : ∃ g, Lower.Opened i entry.func g s o
  site : ∃ l, o.site? = some (l, i, entry, content)
  begins : o.here.block = some content
  lowered : Visit.Reaches entry o t
  closes : (do setBlock entry; branch content; Lower.closeBlocks : Emit Unit) t = .ok () s'
  /-- Room for variables has been made in the entry block only. -/
  slots : ∀ r e, e.isSlot = true → s'.program.HoldsAt r e → r = entry ∨ s.program.HoldsAt r e
  /-- Nothing goes back to the entry block, and it goes on at the other one. -/
  ends : ∃ (g : Func) (b : Block) (body : List Instr), s'.program.funcs[entry.func]? = some g ∧
    g.predecessors entry.func entry = [] ∧ g.blocks[entry.index]? = some b ∧
    b.items.toList = (body ++ [Instr.branch content.index]).map .instr ∧ ∀ e ∈ body, e.isTerminator = false
  /-- A slot that is requested at any point is made and stays, and code goes on where it was. -/
  requests : ∀ u, Visit.Reaches entry o u → ∃ g : Func, u.program.funcs[entry.func]? = some g ∧
    ∀ type nulled, (∀ e ∈ slotCode type nulled g.nextValue, e.Whole) →
      ∃ (u' : State) (b c : Block), entryVar type nulled u = .ok (.id g.nextValue) u' ∧ u'.here = u.here ∧
        u.program.blockAt entry = some b ∧ u'.program.blockAt entry = some c ∧
        c.items.toList = b.items.toList ++ (slotCode type nulled g.nextValue).map .instr ∧
        (Visit.Reaches entry u' t → ∀ e ∈ slotCode type nulled g.nextValue, s'.program.HoldsAt entry e)

/-- Whatever is lowered, the entry block stays open until all code has been lowered, so slots can be requested from any
point of the visit. -/
theorem lowered_slots {x : Emit Unit} (hs : s.Rested) (hx : LoweringOf i x) (h : x s = .ok () s') :
    ∃ entry content o t, SlotsMade i s s' entry content o t := by
  obtain ⟨v, rfl, hleads⟩ : ∃ v : Visit, v.impl = i ∧ v.Leads s s' := by
    cases hx with
    | tree => exact Lower.lowerImpl_visited hs h
    | stack code => exact Stack.lowerImpl_visited hs h
  obtain ⟨t, t', ht, hend, hgrown, -, ht', hs'⟩ := hleads.closed
  obtain ⟨g₀, ho, hindex, hcursor⟩ := hleads.opened
  obtain ⟨g, hg, -⟩ : ∃ g, s'.program.funcs[v.entry.func]? = some g ∧ _ := hs'.func
  obtain ⟨b, hb, hlast⟩ : ∃ b, s'.program.blockAt v.entry = some b ∧ _ := hs'.ended _ rfl
  obtain ⟨body, hitems, hplain⟩ := (hs'.sound.shaped hb).exists_body hlast
  refine ⟨v.entry, v.content, v.start, t, hs'.code, ⟨g₀, ho⟩, ⟨_, hleads.begun.site⟩, ?_, ht.reached, hend, fun r e he h => ?_,
    ⟨g, b, body, hg, ?_, ?_, hitems, hplain⟩, fun u hu => ?_⟩
  · obtain ⟨c, hc, -, hblock⟩ := ho.stands
    rw [State.here, ho.cursor, hc, Option.getD_some, hblock, ← hindex]
    rfl
  · exact hleads.before ▸ hs'.slots r e he h
  · simp only [Func.predecessors, List.filterMap_eq_nil_iff]
    intro k _
    cases hk : g.blocks[k]? with
    | none => simp
    | some c =>
      have hnone : v.entry ∉ c.branches := hs'.branches ⟨v.entry.func, k⟩ c rfl (by rw [Program.blockAt, hg]; exact hk)
      simp [Block.branchesInto, hnone]
  · rwa [Program.blockAt, hg] at hb
  · obtain ⟨hvisits, hapart⟩ := hu.visits hleads.begun.toVisits hleads.begun.toApart
    obtain ⟨g, hg, -⟩ := hvisits.func
    refine ⟨g, hg, fun type nulled hwhole => ?_⟩
    obtain ⟨u', b, c, hrun, hb, hc, hitems⟩ := hvisits.exists_entryVar (hapart.opened hleads.last) hg hwhole
    have hstays := Stays.stays hvisits.sound hrun
    refine ⟨u', b, c, hrun, hstays.here_eq hvisits, hb, hc, hitems, fun hreach e he => ?_⟩
    have hlater := ((hreach.extends hstays.sound).2.trans hgrown).trans (hs'.reached.extends ht'.sound).2
    have hmem : Item.instr e ∈ c.items.toList := by
      rw [hitems]
      exact List.mem_append_right _ (List.mem_map_of_mem he)
    obtain ⟨d, hd, hcd⟩ := hlater.exists_block hc
    exact ⟨d, hd, Array.mem_toList_iff.1 (hcd.items.subset hmem)⟩

/-- A function that assigns to a variable after it has returned. -/
def lateNode : Node :=
  Lower.unaryNode [.mk {} (.ret .absent), .mk {} (.assign (.group [.mk {} (.name "y" (some .store))]) (.mk {} (.constant (.int 1))))]

/-- The slot of a variable is requested from a block that has ended. -/
theorem lowered_slots_late : ∃ s s' : State, s.Rested ∧ Lower.lowerImpl 1 s = .ok () s' ∧
    ∃ entry content o t, SlotsMade 1 s s' entry content o t := by
  obtain ⟨_, s', h⟩ := exists_of_completes
    (r := (Compile.newDefinition lateNode >>= fun _ => Lower.lowerImpl 1) { Compile.ready with output := "late.o" })
    (by decide +kernel)
  obtain ⟨d, s, hdefinition, hlower⟩ := bind_eq_ok.1 h
  have hs : s.Rested := (Preserves.of_ok (Compile.waiting_ready "late.o") hdefinition).rested
  exact ⟨s, s', hs, hlower, lowered_slots hs .tree hlower⟩

end Lowering
