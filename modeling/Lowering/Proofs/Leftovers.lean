import Lowering.Proofs.KeywordBlocks
import Lowering.Proofs.NamedCalls

/-!
Where a value is left over. Some constructs clear the last value before they lower a node inside them and others do
not, so a tree can be looked through for calls by name that may come upon a value. In a tree without such calls every
call by name is a call of the object that the name is bound to outside the function.
-/
namespace Lowering

open Emit

set_option synthInstance.maxSize 100000000

/-- A token whose usage is replaced, with the usage that it has instead. -/
abbrev Token := Option (Nat × Option Usage)

/-- A tree is being lowered, with the usage of a token replaced. If the flag says so, no value is left over. -/
structure State.Idle (k : Token) (clear : Bool) (s : State) : Prop where
  lowerer : s.lowerer = .tree
  replaced : s.tree.replaced = k
  clear : clear = true → s.tree.last.value = .absent

variable {α β γ : Type} {k : Token} {b c : Bool}

theorem State.Idle.weaken {s : State} (hs : s.Idle k b) : s.Idle k false :=
  ⟨hs.lowerer, hs.replaced, nofun⟩

/-- The lowering goes on, and no value is left over if none was. -/
def idle (k : Token) (b : Bool) : Regime where
  Holds := State.Idle k b
  Room _ := True
  Loose _ := True
  Fallen _ := True

instance : (idle k b).Plain where
  lowerer hs := hs.lowerer
  __ := Regime.Writes.of_blind (R := idle k b) (fun _ => trivial) fun _ hs => { hs with }
  printed hs _ _ hlowerer htree _ _ _ _ _ := ⟨hlowerer ▸ hs.lowerer, htree ▸ hs.replaced, htree ▸ hs.clear⟩
  addVariable _ _ hs := ⟨{ hs with }, trivial⟩
  setSlot _ hs _ := { hs with }
  setUsed _ _ hs := { hs with }

instance : (idle k b).Lax := ⟨fun _ => trivial⟩
instance (r : BlockRef) : Inside (idle k b) r := ⟨trivial⟩

namespace Lower

section Values

instance : (idle k false).Notes where
  note h := heeds_modify fun s hs => ⟨hs.lowerer, (congrArg TreeFrame.replaced (h s.tree)).trans hs.replaced, nofun⟩

instance (t : Option ValueType) : Heeds (idle k b) (setLastType t) := heeds_modify fun _ hs => { hs with }
instance (t : Term) : Heeds (idle k b) (setAssigned t) := heeds_modify fun _ hs => { hs with }
instance : Heeds (idle k b) enterAssign := heeds_modify fun _ hs => { hs with }
instance : Heeds (idle k b) leaveAssign := heeds_modify fun _ hs => { hs with }
instance (t : Term) : Heeds (idle k b) (takeAssigned t) := by unfold takeAssigned; infer_instance

end Values

/-- Under the condition the two actions complete alike, and what they give and leave has a property. -/
def Accords (P : State → Prop) (x y : Emit α) (Q : α → State → Prop) : Prop :=
  ∀ s, P s → ∀ a s', (x s = .ok a s' ↔ y s = .ok a s') ∧ (x s = .ok a s' → Q a s')

/-- The two actions complete alike, from one idle state to another. -/
abbrev Idles (k : Token) (b c : Bool) (x y : Emit α) : Prop := Accords (State.Idle k b) x y fun _ => State.Idle k c

namespace Accords

variable {P : State → Prop} {Q : α → State → Prop} {R : β → State → Prop} {x y : Emit α} {f g : α → Emit β}

theorem bind (hx : Accords P x y Q) (hf : ∀ a, Accords (Q a) (f a) (g a) R) : Accords P (x >>= f) (y >>= g) R := by
  intro s hs b s'
  simp only [bind_eq_ok]
  refine ⟨⟨?_, ?_⟩, ?_⟩
  · rintro ⟨a, s₁, hxa, hfa⟩
    obtain ⟨hsame, hq⟩ := hx s hs a s₁
    exact ⟨a, s₁, hsame.1 hxa, (hf a s₁ (hq hxa) b s').1.1 hfa⟩
  · rintro ⟨a, s₁, hya, hga⟩
    obtain ⟨hsame, hq⟩ := hx s hs a s₁
    have hxa := hsame.2 hya
    exact ⟨a, s₁, hxa, (hf a s₁ (hq hxa) b s').1.2 hga⟩
  · rintro ⟨a, s₁, hxa, hfa⟩
    exact (hf a s₁ ((hx s hs a s₁).2 hxa) b s').2 hfa

theorem trans {z : Emit α} (hxy : Accords P x y Q) (hyz : ∀ s, P s → ∀ a s', y s = .ok a s' ↔ z s = .ok a s') :
    Accords P x z Q := by
  intro s hs a s'
  obtain ⟨hsame, hq⟩ := hxy s hs a s'
  exact ⟨hsame.trans (hyz s hs a s'), hq⟩

theorem imp {P' : State → Prop} {Q' : α → State → Prop} (h : Accords P x y Q) (hP : ∀ s, P' s → P s)
    (hQ : ∀ a s, Q a s → Q' a s) : Accords P' x y Q' := by
  intro s hs a s'
  obtain ⟨hsame, hq⟩ := h s (hP s hs) a s'
  exact ⟨hsame, fun hok => hQ a s' (hq hok)⟩

theorem of_fails (hx : Fails x) (hy : Fails y) : Accords P x y Q :=
  fun _ _ _ _ => ⟨iff_of_false hx.ne_ok hy.ne_ok, fun h => absurd h hx.ne_ok⟩

theorem fails [hx : Fails x] [hy : Fails y] : Accords P x y Q := of_fails hx hy

theorem throw (e : Fault) : Accords P (MonadExcept.throw e : Emit α) (MonadExcept.throw e) Q := .fails

theorem of_and {φ : Prop} (h : φ → Accords P x y Q) : Accords (fun s => P s ∧ φ) x y Q :=
  fun s hs => h hs.2 s hs.1

theorem expect {o : Option α} {e : Fault} (h : ∀ a, o = some a → Accords P (f a) (g a) R) :
    Accords P (Emit.expect o e >>= f) (Emit.expect o e >>= g) R := by
  cases o with
  | none =>
    unfold Emit.expect
    exact .fails
  | some a => exact h a rfl

theorem pure {a : α} (h : ∀ s, P s → Q a s) : Accords P (Pure.pure a) (Pure.pure a) Q := by
  refine fun s hs b s' => ⟨.rfl, fun hok => ?_⟩
  obtain ⟨rfl, rfl⟩ := pure_eq_ok.1 hok
  exact h _ hs

theorem kept [hx : Heeds (idle k b) x] : Idles k b b x x := by
  refine fun s hs a s' => ⟨.rfl, fun hok => ?_⟩
  exact holds_of_ok (R := idle k b) hs hok

theorem skip [Heeds (idle k b) x] (hf : ∀ a, Accords (State.Idle k b) (f a) (g a) R) :
    Accords (State.Idle k b) (x >>= f) (x >>= g) R :=
  .bind .kept hf

theorem rest [Heeds (idle k false) x] : Idles k b false x x :=
  kept.imp (fun _ hs => hs.weaken) fun _ _ hs => hs

theorem reset : Idles k b true resetLast resetLast := by
  refine fun s hs _ s' => ⟨.rfl, fun hok => ?_⟩
  cases hok
  exact ⟨hs.lowerer, hs.replaced, fun _ => rfl⟩

theorem clear : Idles k b true (setLastValue .absent) (setLastValue .absent) := by
  refine fun s hs _ s' => ⟨.rfl, fun hok => ?_⟩
  cases hok
  exact ⟨hs.lowerer, hs.replaced, fun _ => rfl⟩

theorem usage {n : Node} {f g : Option Usage → Emit β}
    (h : Accords (State.Idle k b) (f (usageUnder k n)) (g (usageUnder k n)) R) :
    Accords (State.Idle k b) (usageOf n >>= f) (usageOf n >>= g) R := by
  intro s hs
  have hrun : ∀ f : Option Usage → Emit β, (usageOf n >>= f) s = f (usageUnder k n) s := fun f => by
    rw [← hs.replaced]
    rfl
  rw [hrun, hrun]
  exact h s hs

theorem replacing {f g : Token → Emit β} (h : Accords (State.Idle k b) (f k) (g k) R) :
    Accords (State.Idle k b) (replaced >>= f) (replaced >>= g) R := by
  intro s hs
  have hrun : ∀ f : Token → Emit β, (replaced >>= f) s = f k s := fun f => by
    rw [← hs.replaced]
    rfl
  rw [hrun, hrun]
  exact h s hs

theorem replace (k' : Token) : Accords (State.Idle k b) (setReplaced k') (setReplaced k') fun _ => State.Idle k' b := by
  refine fun s hs _ s' => ⟨.rfl, fun hok => ?_⟩
  cases hok
  exact ⟨hs.lowerer, rfl, hs.clear⟩

theorem restore {t : Term} (ht : c = true → t.value = .absent) : Idles k b c (setLast t) (setLast t) := by
  refine fun s hs _ s' => ⟨.rfl, fun hok => ?_⟩
  cases hok
  exact ⟨hs.lowerer, hs.replaced, ht⟩

section Lists

variable {step : Bool → γ → Option Bool} {xs : List γ}

theorem mapM {f g : γ → Emit β} (h : ∀ {b c a}, step b a = some c → Idles k b c (f a) (g a))
    (hxs : xs.foldlM step b = some c) : Idles k b c (xs.mapM f) (xs.mapM g) := by
  induction xs generalizing b with
  | nil =>
    cases hxs
    exact .pure fun _ hs => hs
  | cons a xs ih =>
    rw [List.foldlM_cons] at hxs
    obtain ⟨d, ha, hxs⟩ := Option.bind_eq_some_iff.1 hxs
    rw [List.mapM_cons, List.mapM_cons]
    exact .bind (h ha) fun _ => .bind (ih hxs) fun _ => .pure fun _ hs => hs

theorem forM {f g : γ → Emit PUnit} (h : ∀ {b c a}, step b a = some c → Idles k b c (f a) (g a))
    (hxs : xs.foldlM step b = some c) : Idles k b c (xs.forM f) (xs.forM g) := by
  induction xs generalizing b with
  | nil =>
    cases hxs
    exact .pure fun _ hs => hs
  | cons a xs ih =>
    rw [List.foldlM_cons] at hxs
    obtain ⟨d, ha, hxs⟩ := Option.bind_eq_some_iff.1 hxs
    exact .bind (h ha) fun _ => ih hxs

theorem forIn {f g : γ → PUnit → Emit (ForInStep PUnit)} (h : ∀ {b c a}, step b a = some c →
      Accords (State.Idle k b) (f a ⟨⟩) (g a ⟨⟩) fun o s => o = .yield ⟨⟩ ∧ State.Idle k c s)
    (hxs : xs.foldlM step b = some c) : Idles k b c (ForIn.forIn xs PUnit.unit f) (ForIn.forIn xs PUnit.unit g) := by
  induction xs generalizing b with
  | nil =>
    cases hxs
    exact .pure fun _ hs => hs
  | cons a xs ih =>
    rw [List.foldlM_cons] at hxs
    obtain ⟨d, ha, hxs⟩ := Option.bind_eq_some_iff.1 hxs
    rw [List.forIn_cons, List.forIn_cons]
    refine .bind (h ha) fun o s hs => ?_
    obtain ⟨rfl, hs⟩ := hs
    exact ih hxs s hs

theorem loop {f g : γ → β → Emit (ForInStep β)} (h : ∀ a ∈ xs, ∀ u, Accords P (f a u) (g a u) fun _ => P) {u : β} :
    Accords P (ForIn.forIn xs u f) (ForIn.forIn xs u g) fun _ => P := by
  induction xs generalizing u with
  | nil => exact .pure fun _ hs => hs
  | cons a xs ih =>
    rw [List.forIn_cons, List.forIn_cons]
    refine .bind (h a List.mem_cons_self u) fun o => ?_
    cases o with
    | done v => exact .pure fun _ hs => hs
    | yield v => exact ih fun a ha => h a (List.mem_cons_of_mem _ ha)

end Lists

end Accords

section Looking

/-- Looks through a node: whether no value is left over after it, given whether one may be before it. There is no
answer if a call by name may come upon a value. -/
abbrev Look := Token → Bool → Node → Option Bool

/-- The items of a node that can be gone through. -/
def itemsOf (n : Node) : List Node := n.items?.getD []

variable (look : Look) (k : Token)

def lookEach (b : Bool) (n : Node) : Option Bool := (itemsOf n).foldlM (look k) b

/-- A node that may be left out. -/
def lookPart (b : Bool) (n : Node) : Option Bool := if n.isAbsent then some b else look k b n

/-- The elements of a list, each of which is cleared up after. -/
def lookElements (b : Bool) (elts : Node) : Option Bool :=
  (itemsOf elts).foldlM (fun b n => (look k b n).map fun _ => true) b

def lookEntries (b : Bool) (keys values : Node) : Option Bool :=
  (itemsOf values).zipIdx.foldlM (fun b e =>
    match (itemsOf keys)[e.2]? with
    | some key => do
      let b ← look k b key
      (look k b e.1).map fun _ => true
    | none => some b) b

def lookCallee (b : Bool) (func : Node) : Option Bool :=
  match func.form with
  | .memberOf value .. => look k b value
  | .name .. => if b then some true else none
  | _ => some b

/-- The name of a keyword argument is left over where its value is lowered. -/
def lookKeyword (n : Node) : Option Bool :=
  match n.form with
  | .keyword name value =>
    match name.constant with
    | .ok c => do look k (← look k true (.mk {} (.constant c))) value
    | .error _ => some true
  | _ => some true

def lookCall (b : Bool) (func args keywords : Node) : Option Bool := do
  let b ← lookCallee look k b func
  let b ← (itemsOf keywords).foldlM (fun _ n => lookKeyword look k n) b
  let _ ← (itemsOf args).foldlM (fun _ n => look k true n) b
  return false

/-- The places that stand in targets, where `within` gives those of one target. -/
def placesOf (within : Node → List Node) (targets : List Node) : List Node :=
  targets.flatMap fun n => within n ++ match n.form with
    | .starred target _ => within target
    | _ => []

/-- The places in a target of at most so many levels. -/
def placesWithin : Nat → Node → List Node
  | 0, _ => []
  | fuel + 1, n =>
    match n.form with
    | .tuple elts _ | .list elts _ => placesOf (placesWithin fuel) (itemsOf elts)
    | .name .. | .subscript .. | .memberOf .. => [n]
    | _ => []

/-- The places that the items of a value are assigned to, in any order. -/
def lookPlaces (targets : List Node) : Option Bool :=
  if (placesOf (placesWithin (Node.listDepth targets)) targets).all fun n => (look k false n).isSome then some false
  else none

/-- The places of an assignment that takes a value apart. -/
def splitPlaces? (targets : Node) : Option (List Node) :=
  (itemsOf targets).head?.bind fun first =>
    match first.form with
    | .tuple elts _ | .list elts _ => if (itemsOf elts).length = 1 then none else some (itemsOf elts)
    | _ => none

def lookTargets (targets : Node) : Option Bool :=
  match splitPlaces? targets with
  | some places => lookPlaces look k places
  | none => look k true targets

def lookBinding (b : Bool) (target : Node) : Option Bool :=
  match target.form with
  | .tuple elts _ | .list elts _ => lookPlaces look k (itemsOf elts)
  | _ => some b

def lookLoop (b : Bool) (generator : Node) : Option Bool :=
  match generator.form with
  | .comprehension target iter ifs => do
    let b ← look k b iter
    let b ← lookBinding look k b target
    lookEach look k b ifs
  | _ => some b

def lookManager (b : Bool) (item : Node) : Option Bool :=
  match item.form with
  | .withItem context _ => look k b context
  | _ => some b

/-- The token of an augmented assignment is passed over, read and written. -/
def lookAugmented (b : Bool) (node target value : Node) : Option Bool :=
  match node.findStored? (usageUnder k) with
  | some token => do
    let b ← look (some (token.mark.key, none)) b target
    let _ ← look (some (token.mark.key, some .load)) b token
    let _ ← look (some (token.mark.key, some .load)) true value
    look (some (token.mark.key, some .store)) b token
  | none => some b

def operatorNode : Option Operator → Node
  | some op => .leaf op.className
  | none => .absent

/-- Looks through one construct. -/
def survey (b : Bool) (n : Node) : Option Bool :=
  match n.form with
  | .name .. =>
    match usageUnder k n with
    | some .load => some false
    | _ => some b
  | .constant _ => some false
  | .memberOf value .. => (look k true value).map fun _ => false
  | .subscript value slice _ => do
    let b ← look k b value
    (look k b slice).map fun _ => false
  | .list elts _ | .tuple elts _ => (lookElements look k b elts).map fun _ => false
  | .set elts | .boolOp _ elts => (lookEach look k b elts).map fun _ => false
  | .dict keys values => (lookEntries look k b keys values).map fun _ => false
  | .slice lower upper step => do
    let b ← lookPart look k b lower
    let b ← lookPart look k b upper
    (lookPart look k b step).map fun _ => false
  | .binOp left op right => do
    let _ ← look k b left
    let b ← look k true right
    (look k b (operatorNode op)).map fun _ => false
  | .unaryOp _ operand => (look k b operand).map fun _ => false
  | .compare left _ comparators => ((left :: itemsOf comparators).foldlM (look k) b).map fun _ => false
  | .call func args keywords => lookCall look k b func args keywords
  | .namedExpr target value => do
    let _ ← look k b value
    look k true target
  | .listComp elt generators | .setComp elt generators => do
    let b ← (itemsOf generators).foldlM (lookLoop look k) b
    (look k b elt).map fun _ => false
  | .dictComp key value generators => do
    let b ← (itemsOf generators).foldlM (lookLoop look k) b
    let b ← look k b key
    (look k b value).map fun _ => false
  | .comprehension _ iter _ => (look k b iter).map fun _ => false
  | .expr value | .expression value => look k true value
  | .assign targets value => do
    let _ ← look k b value
    (lookTargets look k targets).map fun _ => true
  | .annAssign target _ value =>
    if value.isAbsent then some b
    else do
      let _ ← look k b value
      (look k true target).map fun _ => true
  | .augAssign target _ value => lookAugmented look k b n target value
  | .delete targets => lookEach look k b targets
  | .ret value => lookPart look k b value
  | .ifStmt test body orelse | .whileStmt test body orelse | .forStmt _ test body orelse => do
    let b ← look k b test
    let b ← look k b body
    lookPart look k b orelse
  | .withStmt items body => do
    let b ← (itemsOf items).foldlM (lookManager look k) b
    look k b body
  | .functionDef _ _ body _ _ => look k b body
  | .starred .. | .keyword .. | .withItem .. | .other .. => n.children.foldlM (look k) b
  | _ => some b

end Looking

/-- Looks through the items of a list one after the other. -/
def lookOver (look : Look) : Look := fun k b n =>
  match n.form with
  | .suite items => items.foldlM (look k) b
  | _ => look k b n

/-- Looks through a tree of at most so many levels. -/
def lookWithin : Nat → Look
  | 0 => fun _ b _ => some b
  | fuel + 1 => survey (lookOver (lookWithin fuel))

/-- No call by name in the tree comes upon a value that is left over. -/
def isClear (n : Node) : Bool := (lookOver (lookWithin n.depth) none true n).isSome

/-- The rule for one construct, by which a name that is called is looked up outside the function. -/
def constructDirectly (r : Recur) (n : Node) : Emit Unit :=
  match n.form with
  | .call func args keywords =>
    match func.form with
    | .name id _ => callNamed r id args keywords
    | _ => callExpr r func args keywords
  | _ => construct r n

def directWithin : Nat → Node → Emit Unit
  | 0, _ => return ()
  | fuel + 1, n => constructDirectly ⟨announced (directWithin fuel)⟩ n

/-- Lowers a tree by those rules. -/
def visitDirectly (n : Node) : Emit Unit := announced (directWithin n.depth) n

theorem Accords.each {P : State → Prop} {Q : β → State → Prop} {n : Node} {f g : List Node → Emit β}
    (h : Accords P (f (itemsOf n)) (g (itemsOf n)) Q) : Accords P (each n >>= f) (each n >>= g) Q := by
  unfold Lower.each
  cases hn : n.items? with
  | none => exact .fails
  | some items =>
    rw [itemsOf, hn] at h
    exact h

/-- Two ways to lower nodes that complete alike, as far as has been found by looking. -/
def Sees (look : Look) (r r' : Recur) : Prop :=
  ∀ {k : Token} {b c : Bool} {n : Node}, look k b n = some c →
    Idles k b c (r.visit n) (r'.visit n)

namespace Sees

variable {look : Look} {r r' : Recur} {n left right value target : Node} {b₁ b₂ b₃ : Bool} {op : Option Operator}

theorem base (hr : Sees look r r') (h : look k b n = some c) :
    Accords (State.Idle k b) (r.term n) (r'.term n) fun t s =>
      State.Idle k c s ∧ (c = true → t.value = .absent) := by
  refine .bind (hr h) fun _ s hs t s' => ⟨.rfl, fun hok => ?_⟩
  cases hok
  exact ⟨hs, hs.clear⟩

theorem term (hr : Sees look r r') (h : look k b n = some c) : Idles k b c (r.term n) (r'.term n) :=
  (hr.base h).imp (fun _ hs => hs) fun _ _ hs => hs.1

section Expressions

theorem binOp (hr : Sees look r r') (hleft : look k b left = some b₁) (hright : look k true right = some b₂)
    (hop : look k b₂ (operatorNode op) = some b₃) :
    Idles k b false (binOp r left op right) (binOp r' left op right) := by
  refine .bind (hr.term hleft) fun l => .bind .reset fun _ => .bind (hr.term hright) fun v => ?_
  cases op <;> exact .bind (hr hop) fun _ => .rest

theorem compare (hr : Sees look r r') {ops : Option (List (Option Operator))}
    (h : (left :: itemsOf right).foldlM (look k) b = some c) :
    Idles k b false (compare r left ops right) (compare r' left ops right) := by
  have hterm : Idles k b false (compareTerm r left ops right) (compareTerm r' left ops right) := .each (.bind (.mapM hr.term h) fun _ => .rest)
  refine .bind hterm fun result => ?_
  cases result <;> exact .rest

theorem name {id : Label} (h : (match usageUnder k n with | some .load => some false | _ => some b) = some c) :
    Idles k b c (name n id) (name n id) := by
  refine .usage ?_
  generalize usageUnder k n = u at h
  match u with
  | some .load =>
    cases h
    exact .rest
  | some .store | none | some (.other _) =>
    cases h
    exact .kept

theorem subscript (hr : Sees look r r') (hleft : look k b left = some b₁) (hright : look k b₁ right = some b₂) :
    Idles k b false (subscript r n left right) (subscript r' n left right) := by
  refine .bind (hr.term hleft) fun sequence => .bind (hr.term hright) fun index => ?_
  dsimp only
  refine .usage ?_
  split <;> exact .rest

theorem slicePart (hr : Sees look r r') (h : lookPart look k b n = some c) :
    Idles k b c (slicePart r n) (slicePart r' n) := by
  unfold Lower.slicePart
  rw [lookPart] at h
  split at h
  next hn =>
    cases h
    rw [if_pos hn, if_pos hn]
    exact .kept
  next hn =>
    rw [if_neg hn, if_neg hn]
    exact .bind (hr.term h) fun _ => .kept

theorem elements (hr : Sees look r r') (h : lookElements look k b n = some c) :
    Idles k b c (elements r n) (elements r' n) := by
  refine .each (.mapM (fun ha => ?_) h)
  obtain ⟨d, hd, rfl⟩ := Option.map_eq_some_iff.1 ha
  exact .bind (hr.term hd) fun _ => .bind .clear fun _ => .kept

theorem constant (d : Constant) : Idles k b false (constant d) (constant d) := by
  unfold Lower.constant
  cases d <;> exact .rest

/-- A value without a key at its place fails. -/
theorem dict (hr : Sees look r r') {keys values : Node} (h : lookEntries look k b keys values = some c) :
    Idles k b false (dict r keys values) (dict r' keys values) := by
  refine .skip fun made => .each (.bind (.forIn (fun {b₁ c1 e} he => .each ?_) h) fun _ => .rest)
  refine .expect fun key hkey => ?_
  rw [hkey] at he
  obtain ⟨d, hd, he⟩ := Option.bind_eq_some_iff.1 he
  obtain ⟨_, hvalue, rfl⟩ := Option.map_eq_some_iff.1 he
  refine .bind (hr.term hd) fun _ => .bind (hr.term hvalue) fun _ => ?_
  refine .skip fun _ => .skip fun _ => .skip fun _ => .bind .clear fun _ => ?_
  exact .pure fun _ hs => ⟨rfl, hs⟩

theorem callee (hr : Sees look r r') (h : lookCallee look k b n = some c) : Idles k b c (callee r n) (callee r' n) := by
  obtain ⟨mark, form⟩ := n
  cases form with
  | memberOf value attr u => exact .bind (hr h) fun _ => .kept
  | name id u =>
    cases b with
    | false => cases h
    | true =>
      cases h
      exact .pure fun _ hs => hs
  | _ => exact .throw _

theorem keywordName (hr : Sees look r r') {id : Label} {d : Constant} (hid : id.constant = .ok d)
    (h : look k b (.mk {} (.constant d)) = some c) : Idles k b c (keywordName r id) (keywordName r' id) := by
  unfold Lower.keywordName
  rw [hid]
  exact hr.term h

theorem fails_keywordArg (h : ∀ id value, n.form ≠ .keyword id value) : Fails (Lower.keywordArg r n) := by
  refine .later fun _ => .later fun _ => .later fun _ => ?_
  split
  next id value hform => exact absurd hform (h id value)
  next => infer_instance

theorem keywordArg (hr : Sees look r r') (h : lookKeyword look k n = some c) :
    Idles k b c (keywordArg r n) (keywordArg r' n) := by
  by_cases hform : ∃ id value, n.form = .keyword id value
  case neg =>
    have hne : ∀ id value, n.form ≠ .keyword id value := fun id value h => hform ⟨id, value, h⟩
    exact .of_fails (fails_keywordArg hne) (fails_keywordArg hne)
  obtain ⟨id, value, hform⟩ := hform
  obtain ⟨mark, form⟩ := n
  cases hform
  have hrun : ∀ r : Recur, Lower.keywordArg r (.mk mark (.keyword id value)) = (do
      resetLast
      let key ← Lower.keywordName r id
      let value ← r.term value
      return (key.value, value.value)) := fun _ => rfl
  rw [hrun, hrun]
  refine .bind .reset fun _ => ?_
  cases hid : id.constant with
  | error e =>
    have hfails : ∀ r : Recur, Fails (Lower.keywordName r id) := fun r => by
      unfold Lower.keywordName
      rw [hid]
      infer_instance
    exact .of_fails (.first (hfails r)) (.first (hfails r'))
  | ok d =>
    simp only [lookKeyword, Node.form, hid] at h
    obtain ⟨b₁, hd, hvalue⟩ := Option.bind_eq_some_iff.1 h
    exact .bind (hr.keywordName hid hd) fun _ => .bind (hr.term hvalue) fun _ => .kept

theorem call_of_callee (hr : Sees look r r') {func args keywords : Node}
    (hfunc : Idles k b b₁ (Lower.callee r func) (Lower.callee r' func))
    (hkeywords : (itemsOf keywords).foldlM (fun _ n => lookKeyword look k n) b₁ = some b₂)
    (hargs : (itemsOf args).foldlM (fun _ n => look k true n) b₂ = some b₃) :
    Idles k b false (callExpr r func args keywords) (callExpr r' func args keywords) := by
  refine .bind hfunc fun name => .skip fun s => .each (.bind (.mapM hr.keywordArg hkeywords) fun pairs => ?_)
  refine .each (.bind (.mapM (fun ha => ?_) hargs) fun values => .rest)
  exact .bind .reset fun _ => .bind (hr.term ha) fun _ => .kept

theorem callExpr (hr : Sees look r r') {func args keywords : Node} (h : lookCall look k b func args keywords = some c) :
    Idles k b c (callExpr r func args keywords) (callExpr r' func args keywords) := by
  obtain ⟨b₁, hfunc, h⟩ := Option.bind_eq_some_iff.1 h
  obtain ⟨b₂, hkeywords, h⟩ := Option.bind_eq_some_iff.1 h
  obtain ⟨b₃, hargs, h⟩ := Option.bind_eq_some_iff.1 h
  cases h
  exact hr.call_of_callee (hr.callee hfunc) hkeywords hargs

/-- A call by name that comes upon nothing calls the object that the name is bound to. -/
theorem call (hr : Sees look r r') {mark : Mark} {func args keywords : Node}
    (h : lookCall look k b func args keywords = some c) : Idles k b c (Lower.callExpr r func args keywords)
      (constructDirectly r' (.mk mark (.call func args keywords))) := by
  have hcall := hr.callExpr h
  obtain ⟨b₁, hfunc, -⟩ := Option.bind_eq_some_iff.1 h
  obtain ⟨mark', form⟩ := func
  cases form with
  | name id u =>
    cases b with
    | false => cases hfunc
    | true => exact hcall.trans fun s hs _ s' => callExpr_of_absent rfl (hs.clear rfl)
  | _ => exact hcall

end Expressions

section Unpacking

variable {assign assign' : Node → Term → Emit Unit} {targets : List Node} {t : Term} {before : Nat} {after : Int}

theorem targetAt {P : State → Prop} {Q : β → State → Prop} {i : Nat} {f g : Node → Emit β}
    (h : ∀ n ∈ targets, Accords P (f n) (g n) Q) :
    Accords P (targetAt targets i >>= f) (targetAt targets i >>= g) Q := by
  unfold Lower.targetAt
  cases hi : targets[i]? with
  | none => exact .fails
  | some n => exact h n (List.mem_of_getElem? hi)

theorem starredTarget {P : State → Prop} {Q : β → State → Prop} {f g : Node → Emit β}
    (h : ∀ m u, n.form = .starred m u → Accords P (f m) (g m) Q) :
    Accords P (starredTarget n >>= f) (starredTarget n >>= g) Q := by
  unfold Lower.starredTarget
  split
  next m u hform => exact h m u hform
  next => exact .fails

/-- The target is one of those, or starred as one of them. -/
def Among (targets : List Node) (n : Node) : Prop := n ∈ targets ∨ ∃ m ∈ targets, ∃ u, m.form = .starred n u

theorem unpackIterable (h : ∀ n v, Among targets n → Idles k false false (assign n v) (assign' n v)) :
    Idles k false false (unpackIterable assign targets t before after)
      (unpackIterable assign' targets t before after) := by
  refine .skip fun error => .skip fun rest => .skip fun iterator => .bind (.loop fun e he _ => ?_) fun _ => ?_
  · obtain ⟨target, i⟩ := e
    have htarget : target ∈ targets := List.mem_of_mem_take (List.fst_mem_of_mem_zipIdx he)
    dsimp only
    refine .skip fun test => .skip fun _ => .skip fun _ => .skip fun next => .skip fun ptr => .skip fun zero => ?_
    refine .skip fun _ => .skip fun isNull => .skip fun unpack => .skip fun _ => .skip fun _ => ?_
    exact .bind (h target next (.inl htarget)) fun _ => .kept
  · dsimp only
    split
    next =>
      refine .skip fun last => .skip fun list => .skip fun _ => .skip fun length => .skip fun middle => ?_
      refine targetAt fun m hm => starredTarget fun n u hn => .bind (h n middle (.inr ⟨m, hm, u, hn⟩)) fun _ => ?_
      refine .bind (.loop fun k' _ _ => .skip fun item => targetAt fun n hn => ?_) fun _ => .kept
      exact .bind (h n item (.inl hn)) fun _ => .kept
    next => exact .kept

theorem unpackSized (h : ∀ n v, Among targets n → Idles k false false (assign n v) (assign' n v)) :
    Idles k false false (unpackSized assign targets t before after) (unpackSized assign' targets t before after) := by
  unfold Lower.unpackSized
  dsimp only
  split
  case' isTrue => refine .bind (unpackIterable h) fun _ => ?_
  all_goals
    refine .skip fun unpack => .skip fun error => .skip fun rest => .skip fun count => .skip fun length => ?_
    refine .skip fun test => .skip fun _ => .skip fun _ => .bind (.loop fun e he _ => ?_) fun _ => .kept
    obtain ⟨target, i⟩ := e
    have htarget : target ∈ targets := List.fst_mem_of_mem_zipIdx he
    dsimp only
    refine .skip fun index => .skip fun item => .skip fun type => ?_
    split
    case' isFalse => refine .skip fun _ => ?_
    all_goals exact .bind (h target item (.inl htarget)) fun _ => .kept

theorem unpackTo (h : ∀ n v, Among targets n → Idles k false false (assign n v) (assign' n v)) :
    Idles k false false (unpackTo assign targets t) (unpackTo assign' targets t) := by
  refine .skip fun places => ?_
  obtain ⟨before, after⟩ := places
  refine .skip fun type => ?_
  split
  next => exact unpackSized h
  next =>
    split
    next => exact .skip fun keys => unpackSized h
    next => exact unpackIterable h

/-- The places in the targets of a list are those in the targets that stand among them. -/
theorem mem_placesOf {within : Node → List Node} {m : Node} (hn : Among targets n) (hm : m ∈ within n) :
    m ∈ placesOf within targets := by
  rcases hn with hn | ⟨l, hl, u, hform⟩
  · exact List.mem_flatMap.2 ⟨n, hn, List.mem_append_left _ hm⟩
  · refine List.mem_flatMap.2 ⟨l, hl, List.mem_append_right _ ?_⟩
    rw [hform]
    exact hm

theorem assignTo (hr : Sees look r r') {node : Node} {fuel : Nat} {v : Term}
    (h : ∀ n ∈ placesWithin fuel target, (look k false n).isSome = true) :
    Idles k false false (assignTo r node fuel target v) (assignTo r' node fuel target v) := by
  induction fuel generalizing target v with
  | zero => exact .pure fun _ hs => hs
  | succ fuel ih =>
    unfold Lower.assignTo
    rw [placesWithin] at h
    have hplace : (look k false target).isSome = true → Idles k false false (do
        requireTree
        setAssigned v
        r.visit target) (do
        requireTree
        setAssigned v
        r'.visit target) := by
      intro htarget
      obtain ⟨c, hc⟩ := Option.isSome_iff_exists.1 htarget
      exact .skip fun _ => .skip fun _ => (hr hc).imp (fun _ hs => hs) fun _ _ hs => hs.weaken
    have hitems : ∀ elts, (∀ n ∈ placesOf (placesWithin fuel) (itemsOf elts), (look k false n).isSome = true) →
        Idles k false false (do Lower.unpackTo (Lower.assignTo r node fuel) (← each elts) v)
          (do Lower.unpackTo (Lower.assignTo r' node fuel) (← each elts) v) :=
      fun elts helts => .each (unpackTo fun n w hn => ih fun m hm => helts m (mem_placesOf hn hm))
    split
    next elts _ hform =>
      simp only [hform] at h
      exact hitems elts h
    next elts _ hform =>
      simp only [hform] at h
      exact hitems elts h
    next hform =>
      simp only [hform] at h
      exact hplace (h target List.mem_cons_self)
    next hform =>
      simp only [hform] at h
      exact hplace (h target List.mem_cons_self)
    next hform =>
      simp only [hform] at h
      exact hplace (h target List.mem_cons_self)
    next => exact .kept

theorem unpack (hr : Sees look r r') {node : Node} (h : lookPlaces look k targets = some c) :
    Idles k b c (unpack r targets t node) (unpack r' targets t node) := by
  rw [lookPlaces] at h
  split at h
  case isFalse => cases h
  next hall =>
    cases h
    refine Accords.imp (unpackTo fun n v hn => hr.assignTo fun m hm => ?_) (fun _ hs => hs.weaken) fun _ _ hs => hs
    exact List.all_eq_true.1 hall m (mem_placesOf hn hm)

end Unpacking

section Comprehensions

variable {node generators : Node} {gs : List Node} {done : BlockRef} {action action' : Emit Unit}

theorem bindTarget (hr : Sees look r r') {type : Option ValueType} {item : Term}
    (h : lookBinding look k b target = some c) :
    Idles k b c (bindTarget r node target type item) (bindTarget r' node target type item) := by
  unfold Lower.bindTarget
  rw [lookBinding] at h
  split
  next hform =>
    simp only [hform] at h
    cases h
    exact .kept
  next hform =>
    simp only [hform] at h
    exact .each (hr.unpack h)
  next hform =>
    simp only [hform] at h
    exact .each (hr.unpack h)
  next hname htuple hlist =>
    split at h
    next hform => exact absurd hform (htuple _ _)
    next hform => exact absurd hform (hlist _ _)
    next =>
      cases h
      exact .pure fun _ hs => hs

theorem guardBy (hr : Sees look r r') {otherwise : BlockRef} (h : look k b n = some c) :
    Idles k b c (guardBy r otherwise n) (guardBy r' otherwise n) :=
  .skip fun _ => .bind (hr.term h) fun _ => .kept

theorem openLoop (hr : Sees look r r') (h : lookLoop look k b n = some c) :
    Idles k b c (openLoop r node n done) (openLoop r' node n done) := by
  unfold Lower.openLoop
  rw [lookLoop] at h
  split
  next hform =>
    simp only [hform] at h
    obtain ⟨b₁, hiter, h⟩ := Option.bind_eq_some_iff.1 h
    obtain ⟨b₂, hbinding, hifs⟩ := Option.bind_eq_some_iff.1 h
    refine .bind (hr.term hiter) fun source => .skip fun iterator => .skip fun loop => .skip fun _ => .skip fun _ => ?_
    refine .skip fun item => .skip fun ptr => .skip fun zero => .skip fun _ => .skip fun isNull => .skip fun inside => ?_
    refine .skip fun _ => .skip fun _ => .bind (hr.bindTarget hbinding) fun _ => .each ?_
    refine .bind (.forIn (fun ha => .bind (hr.guardBy ha) fun _ => ?_) hifs) fun _ => .kept
    exact .pure fun _ hs => ⟨rfl, hs⟩
  next => exact .fails

theorem openLoops (hr : Sees look r r') (h : gs.foldlM (lookLoop look k) b = some c)
    (haction : Idles k c false action action') :
    Idles k b false (openLoops r node action gs done) (openLoops r' node action' gs done) := by
  induction gs generalizing b done with
  | nil => exact .rest (x := pure ())
  | cons g gs ih =>
    rw [List.foldlM_cons] at h
    obtain ⟨d, hg, hgs⟩ := Option.bind_eq_some_iff.1 h
    cases gs with
    | nil =>
      cases hgs
      exact .bind (hr.openLoop hg) fun _ => .bind haction fun _ => .kept
    | cons g' gs => exact .bind (hr.openLoop hg) fun _ => ih hgs

theorem comprehend (hr : Sees look r r') (h : (itemsOf generators).foldlM (lookLoop look k) b = some c)
    (haction : Idles k c false action action') :
    Idles k b false (comprehend r node generators action) (comprehend r' node generators action') :=
  .skip fun _ => .each (.bind (hr.openLoops h haction) fun _ => .kept)

end Comprehensions

section Statements

variable {node targets test iter body orelse items : Node}

/-- Whether an assignment takes its value apart is seen from its first target. -/
theorem assignPlaces {P : State → Prop} {Q : β → State → Prop} {f g : Option (List Node) → Emit β} {first : Node}
    (hfirst : (itemsOf targets).head? = some first)
    (h : Accords P (f (splitPlaces? targets)) (g (splitPlaces? targets)) Q) :
    Accords P (assignPlaces first >>= f) (assignPlaces first >>= g) Q := by
  rw [splitPlaces?, hfirst, Option.bind_some] at h
  unfold Lower.assignPlaces
  split
  next hform =>
    simp only [hform] at h
    rw [bind_assoc, bind_assoc]
    exact .each h
  next hform =>
    simp only [hform] at h
    rw [bind_assoc, bind_assoc]
    exact .each h
  next htuple hlist =>
    split at h
    next hform => exact absurd hform (htuple _ _)
    next hform => exact absurd hform (hlist _ _)
    next => exact h

theorem assignStmt (hr : Sees look r r') (hvalue : look k b value = some b₁)
    (htargets : lookTargets look k targets = some b₂) :
    Idles k b true (assignStmt r node targets value) (assignStmt r' node targets value) := by
  rw [lookTargets] at htargets
  refine .skip fun _ => .each (.expect fun first hfirst => assignPlaces hfirst (.skip fun _ => ?_))
  refine .bind (hr.term hvalue) fun t => ?_
  split at htargets
  next places hplaces =>
    rw [hplaces]
    exact .bind (hr.unpack htargets) fun _ => .bind .reset fun _ => .kept
  next hplaces =>
    rw [hplaces]
    refine .skip fun _ => .skip fun _ => .bind .reset fun _ => .bind (hr htargets) fun _ => ?_
    exact .bind .reset fun _ => .kept

/-- A name that is declared may go without a value. -/
theorem annAssign (hr : Sees look r r') (h : (if value.isAbsent then some b else do
      let _ ← look k b value
      (look k true target).map fun _ => true) = some c) :
    Idles k b c (annAssign r target value) (annAssign r' target value) := by
  refine .skip fun _ => ?_
  split at h
  next habsent =>
    cases h
    rw [habsent]
    exact .kept (x := do pure (); leaveAssign)
  next hpresent =>
    obtain ⟨_, hvalue, h⟩ := Option.bind_eq_some_iff.1 h
    obtain ⟨_, htarget, rfl⟩ := Option.map_eq_some_iff.1 h
    rw [Bool.not_eq_true] at hpresent
    rw [hpresent]
    refine .bind (hr.term hvalue) fun t => .skip fun _ => .bind .reset fun _ => .skip fun _ => ?_
    exact .bind (hr htarget) fun _ => .bind .reset fun _ => .kept

/-- What is left over after the target is put back before the token is written. -/
theorem augAssign (hr : Sees look r r') (h : lookAugmented look k b node target value = some c) :
    Idles k b c (augAssign r node target op value) (augAssign r' node target op value) := by
  refine .replacing (.expect fun token htoken => ?_)
  rw [lookAugmented, htoken] at h
  obtain ⟨b₁, htarget, h⟩ := Option.bind_eq_some_iff.1 h
  obtain ⟨b₂, hread, h⟩ := Option.bind_eq_some_iff.1 h
  obtain ⟨b₃, hvalue, hwritten⟩ := Option.bind_eq_some_iff.1 h
  refine .bind (.replace _) fun _ => .bind (hr.base htarget) fun base => .of_and fun hbase => ?_
  refine .bind (.restore hbase) fun _ => .bind (.replace _) fun _ => .bind (hr.term hread) fun left => ?_
  refine .skip fun _ => .bind .reset fun _ => .bind (hr.term hvalue) fun right => .skip fun name => .skip fun result => ?_
  refine .skip fun _ => .bind (.restore hbase) fun _ => .bind (.replace _) fun _ => .bind (hr hwritten) fun _ => ?_
  exact .bind (.replace _) fun _ => .kept

theorem returnStmt (hr : Sees look r r') (h : lookPart look k b value = some c) :
    Idles k b c (returnStmt r value) (returnStmt r' value) := by
  rw [lookPart] at h
  unfold Lower.returnStmt
  dsimp only
  split at h
  next hvalue =>
    cases h
    rw [if_pos hvalue, if_pos hvalue]
    exact .kept
  next hvalue =>
    rw [if_neg hvalue, if_neg hvalue]
    exact .bind (hr.term h) fun _ => .kept

theorem ifStmt (hr : Sees look r r') (htest : look k b test = some b₁) (hbody : look k b₁ body = some b₂)
    (horelse : lookPart look k b₂ orelse = some c) :
    Idles k b c (ifStmt r test body orelse) (ifStmt r' test body orelse) := by
  rw [lookPart] at horelse
  unfold Lower.ifStmt
  dsimp only
  refine .skip fun yes => .skip fun rest => ?_
  split at horelse
  next habsent =>
    cases horelse
    simp only [habsent, if_true, pure_bind]
    refine .bind (hr.term htest) fun t => .skip fun cond => .skip fun _ => .skip fun _ => ?_
    exact .bind (hr hbody) fun _ => .kept
  next hpresent =>
    rw [Bool.not_eq_true] at hpresent
    simp only [hpresent]
    refine .skip fun no => .bind (hr.term htest) fun t => .skip fun cond => .skip fun _ => .skip fun _ => ?_
    refine .bind (hr hbody) fun _ => .skip fun _ => .skip fun _ => ?_
    exact .bind (hr horelse) fun _ => .kept

theorem withExit {exit : BlockRef} {x y : Emit Unit} (h : Idles k b c x y) :
    Idles k b c (withExit exit x) (withExit exit y) := by
  have henter : Heeds (idle k b) (modifyTree fun f => { f with exits := exit :: f.exits }) :=
    heeds_modify fun _ hs => { hs with }
  have hleave : Heeds (idle k c) (modifyTree fun f => { f with exits := f.exits.tail }) :=
    heeds_modify fun _ hs => { hs with }
  exact .skip fun _ => .bind h fun _ => .kept

theorem whileStmt (hr : Sees look r r') (htest : look k b test = some b₁) (hbody : look k b₁ body = some b₂)
    (horelse : lookPart look k b₂ orelse = some c) :
    Idles k b c (whileStmt r test body orelse) (whileStmt r' test body orelse) := by
  rw [lookPart] at horelse
  unfold Lower.whileStmt
  dsimp only
  refine .skip fun head => .skip fun inside => ?_
  split at horelse
  next habsent =>
    cases horelse
    simp only [habsent, if_true, pure_bind]
    refine .skip fun rest => .skip fun _ => .skip fun _ => .bind (hr.term htest) fun t => .skip fun cond => ?_
    exact .skip fun _ => .skip fun _ => .bind (withExit (hr hbody)) fun _ => .kept
  next hpresent =>
    rw [Bool.not_eq_true] at hpresent
    simp only [hpresent, bind_map_left]
    refine .skip fun otherwise => .skip fun rest => .skip fun _ => .skip fun _ => .bind (hr.term htest) fun t => ?_
    refine .skip fun cond => .skip fun _ => .skip fun _ => .bind (withExit (hr hbody)) fun _ => .skip fun _ => ?_
    exact .skip fun _ => .bind (hr horelse) fun _ => .kept

theorem forStmt (hr : Sees look r r') (hiter : look k b iter = some b₁) (hbody : look k b₁ body = some b₂)
    (horelse : lookPart look k b₂ orelse = some c) :
    Idles k b c (forStmt r target iter body orelse) (forStmt r' target iter body orelse) := by
  rw [lookPart] at horelse
  unfold Lower.forStmt
  dsimp only
  refine .skip fun loop => .skip fun inside => ?_
  split at horelse
  next habsent =>
    cases horelse
    simp only [habsent, if_true, pure_bind]
    refine .skip fun rest => .bind (hr.term hiter) fun source => .skip fun _ => .skip fun v => .skip fun iterator => ?_
    refine .skip fun _ => .skip fun _ => .skip fun item => .skip fun ptr => .skip fun zero => .skip fun isNull => ?_
    refine .skip fun _ => .skip fun _ => .skip fun var => .skip fun _ => ?_
    exact .bind (withExit (hr hbody)) fun _ => .kept
  next hpresent =>
    rw [Bool.not_eq_true] at hpresent
    simp only [hpresent, bind_map_left]
    refine .skip fun otherwise => .skip fun rest => .bind (hr.term hiter) fun source => .skip fun _ => .skip fun v => ?_
    refine .skip fun iterator => .skip fun _ => .skip fun _ => .skip fun item => .skip fun ptr => .skip fun zero => ?_
    refine .skip fun isNull => .skip fun _ => .skip fun _ => .skip fun var => .skip fun _ => ?_
    refine .bind (withExit (hr hbody)) fun _ => .skip fun _ => .skip fun _ => .skip fun _ => ?_
    exact .bind (hr horelse) fun _ => .kept

theorem withItem (hr : Sees look r r') (h : lookManager look k b n = some c) :
    Idles k b c (withItem r node n) (withItem r' node n) := by
  unfold Lower.withItem
  rw [lookManager] at h
  split
  next hform =>
    simp only [hform] at h
    exact .bind (hr.term h) fun _ => .kept
  next => exact .fails

theorem withStmt (hr : Sees look r r') (hitems : (itemsOf items).foldlM (lookManager look k) b = some b₁)
    (hbody : look k b₁ body = some c) : Idles k b c (withStmt r node items body) (withStmt r' node items body) := by
  refine .each (.bind (.mapM hr.withItem hitems) fun vars => .bind (hr hbody) fun _ => ?_)
  refine .bind (.loop fun v _ _ => ?_) fun _ => .kept
  cases v <;> exact .kept

end Statements

/-- What the lowering of a construct leaves over is what is found by looking through it, and if each call by name in
it is found to come upon nothing, it is lowered as a call of the object that the name is bound to. -/
theorem construct (hr : Sees look r r') (h : survey look k b n = some c) :
    Idles k b c (construct r n) (constructDirectly r' n) := by
  obtain ⟨mark, form⟩ := n
  cases form with
  | name id u => exact name h
  | memberOf value attr u =>
    obtain ⟨_, hvalue, rfl⟩ := Option.map_eq_some_iff.1 h
    refine .bind .reset fun _ => .bind (hr.term hvalue) fun object => .usage ?_
    split <;> exact .rest
  | subscript value slice u =>
    obtain ⟨_, hvalue, h⟩ := Option.bind_eq_some_iff.1 h
    obtain ⟨_, hslice, rfl⟩ := Option.map_eq_some_iff.1 h
    exact hr.subscript hvalue hslice
  | list elts u =>
    obtain ⟨_, helts, rfl⟩ := Option.map_eq_some_iff.1 h
    exact .bind (hr.elements helts) fun _ => .rest
  | tuple elts u =>
    obtain ⟨_, helts, rfl⟩ := Option.map_eq_some_iff.1 h
    exact .bind (hr.elements helts) fun _ => .rest
  | constant d =>
    cases h
    exact constant d
  | set elts =>
    obtain ⟨_, helts, rfl⟩ := Option.map_eq_some_iff.1 h
    refine .skip fun ptr => .skip fun zero => .skip fun made => .each (.bind (.forIn (fun ha => ?_) helts) fun _ => .rest)
    exact .bind (hr.term ha) fun t => .skip fun item => .skip fun _ => .pure fun _ hs => ⟨rfl, hs⟩
  | dict keys values =>
    obtain ⟨_, hentries, rfl⟩ := Option.map_eq_some_iff.1 h
    exact hr.dict hentries
  | slice lower upper step =>
    obtain ⟨_, hlower, h⟩ := Option.bind_eq_some_iff.1 h
    obtain ⟨_, hupper, h⟩ := Option.bind_eq_some_iff.1 h
    obtain ⟨_, hstep, rfl⟩ := Option.map_eq_some_iff.1 h
    refine .bind (hr.slicePart hlower) fun _ => .bind (hr.slicePart hupper) fun _ => ?_
    exact .bind (hr.slicePart hstep) fun _ => .rest
  | binOp left op right =>
    obtain ⟨_, hleft, h⟩ := Option.bind_eq_some_iff.1 h
    obtain ⟨_, hright, h⟩ := Option.bind_eq_some_iff.1 h
    obtain ⟨_, hop, rfl⟩ := Option.map_eq_some_iff.1 h
    exact hr.binOp hleft hright hop
  | unaryOp op operand =>
    obtain ⟨_, hoperand, rfl⟩ := Option.map_eq_some_iff.1 h
    refine .bind (hr.term hoperand) fun o => .skip fun ptr => ?_
    dsimp only
    split <;> exact .rest
  | boolOp op values =>
    obtain ⟨_, hvalues, rfl⟩ := Option.map_eq_some_iff.1 h
    refine .each (.bind (.mapM hr.term hvalues) fun terms => ?_)
    split <;> exact .rest
  | compare left ops comparators =>
    obtain ⟨_, hterms, rfl⟩ := Option.map_eq_some_iff.1 h
    exact hr.compare hterms
  | call func args keywords => exact hr.call h
  | namedExpr target value =>
    obtain ⟨_, hvalue, htarget⟩ := Option.bind_eq_some_iff.1 h
    exact .bind (hr.term hvalue) fun _ => .skip fun _ => .bind .reset fun _ => hr htarget
  | ifExp test body orelse => exact .fails (x := ifExp r test body orelse) (y := ifExp r' test body orelse)
  | listComp elt generators =>
    obtain ⟨_, hgenerators, h⟩ := Option.bind_eq_some_iff.1 h
    obtain ⟨_, helt, rfl⟩ := Option.map_eq_some_iff.1 h
    refine .skip fun _ => .skip fun _ => .bind (hr.comprehend hgenerators ?_) fun _ => .rest
    exact .bind (hr.term helt) fun _ => .rest
  | setComp elt generators =>
    obtain ⟨_, hgenerators, h⟩ := Option.bind_eq_some_iff.1 h
    obtain ⟨_, helt, rfl⟩ := Option.map_eq_some_iff.1 h
    refine .skip fun _ => .skip fun _ => .skip fun _ => .bind (hr.comprehend hgenerators ?_) fun _ => .rest
    exact .bind (hr.term helt) fun _ => .rest
  | dictComp key value generators =>
    obtain ⟨_, hgenerators, h⟩ := Option.bind_eq_some_iff.1 h
    obtain ⟨_, hkey, h⟩ := Option.bind_eq_some_iff.1 h
    obtain ⟨_, hvalue, rfl⟩ := Option.map_eq_some_iff.1 h
    refine .skip fun _ => .bind (hr.comprehend hgenerators ?_) fun _ => .rest
    exact .bind (hr.term hkey) fun _ => .bind (hr.term hvalue) fun _ => .rest
  | comprehension target iter ifs =>
    obtain ⟨_, hiter, rfl⟩ := Option.map_eq_some_iff.1 h
    change Idles k b false (generator r target iter) (generator r' target iter)
    unfold generator
    split
    next => exact .bind (hr.term hiter) fun _ => .rest
    next => exact .fails
  | expr value => exact .bind .reset fun _ => .bind (hr.term h) fun _ => .kept
  | expression body => exact .bind .reset fun _ => hr h
  | assign targets value =>
    obtain ⟨_, hvalue, h⟩ := Option.bind_eq_some_iff.1 h
    obtain ⟨_, htargets, rfl⟩ := Option.map_eq_some_iff.1 h
    exact hr.assignStmt hvalue htargets
  | annAssign target declared value => exact hr.annAssign h
  | augAssign target op value => exact hr.augAssign h
  | delete targets => exact .each (.forM hr h)
  | ret value => exact hr.returnStmt h
  | assert test msg => exact .fails (x := assertStmt r test) (y := assertStmt r' test)
  | ifStmt test body orelse =>
    obtain ⟨_, htest, h⟩ := Option.bind_eq_some_iff.1 h
    obtain ⟨_, hbody, horelse⟩ := Option.bind_eq_some_iff.1 h
    exact hr.ifStmt htest hbody horelse
  | forStmt target iter body orelse =>
    obtain ⟨_, hiter, h⟩ := Option.bind_eq_some_iff.1 h
    obtain ⟨_, hbody, horelse⟩ := Option.bind_eq_some_iff.1 h
    exact hr.forStmt hiter hbody horelse
  | whileStmt test body orelse =>
    obtain ⟨_, htest, h⟩ := Option.bind_eq_some_iff.1 h
    obtain ⟨_, hbody, horelse⟩ := Option.bind_eq_some_iff.1 h
    exact hr.whileStmt htest hbody horelse
  | withStmt items body =>
    obtain ⟨_, hitems, hbody⟩ := Option.bind_eq_some_iff.1 h
    exact hr.withStmt hitems hbody
  | functionDef _ _ body _ _ => exact hr h
  | starred | keyword | withItem | other => exact .forM hr h
  | absent | plain | suite | raise | yield | yieldFrom | importStmt | importFrom => exact .throw _
  | global names =>
    cases h
    exact .kept (x := globalStmt names)
  | nonlocalStmt names =>
    cases h
    exact .kept (x := nonlocalStmt names)
  | breakStmt =>
    cases h
    exact .kept (x := breakStmt (.mk mark .breakStmt))
  | pass | tryStmt | classDef | arguments | arg =>
    cases h
    exact .kept (x := pure ())

end Sees

section Trees

variable {look : Look} {s s₁ s' : State} {i : Nat}

/-- A node is announced before it is lowered, and the items of a list are lowered one after the other. -/
theorem Sees.announced {lower lower' : Node → Emit Unit}
    (h : ∀ {k : Token} {b c : Bool} {n : Node}, look k b n = some c → Idles k b c (lower n) (lower' n)) :
    Sees (lookOver look) ⟨announced lower⟩ ⟨announced lower'⟩ := by
  intro k b c n hn
  have hcurrent : Heeds (idle k b) (modifyTree fun f => { f with current := if n.isAbsent then none else some n }) :=
    heeds_modify fun _ hs => { hs with }
  refine .skip fun _ => .skip fun _ => ?_
  rw [lookOver] at hn
  split
  next hform =>
    simp only [hform] at hn
    exact .forM h hn
  next hform =>
    split at hn
    next items hitems => exact absurd hitems (hform items)
    next => exact h hn

theorem sees_within (fuel : Nat) :
    Sees (lookOver (lookWithin fuel)) ⟨announced (lowerWithin fuel)⟩ ⟨announced (directWithin fuel)⟩ := by
  induction fuel with
  | zero =>
    refine Sees.announced fun h => ?_
    cases h
    exact .pure fun _ hs => hs
  | succ fuel ih => exact Sees.announced fun h => ih.construct h

/-- A lowering starts with nothing left over. -/
theorem idle_start (hs : s.program.Sound) (h : start i s = .ok () s₁) : s₁.Idle none true := by
  obtain ⟨f, g, t, -, hlowerer, htree, hbind⟩ := start_eq_ok hs h
  have ht : t.Idle none true := ⟨hlowerer, by rw [htree], fun _ => by rw [htree]; rfl⟩
  exact holds_of_ok (R := idle none true) ht hbind

theorem writing_start (hs : s.program.Sound) (h : start i s = .ok () s₁) : ∃ j f, s₁.Writing j f := by
  obtain ⟨f, g, t, ho, -, -, hbind⟩ := start_eq_ok hs h
  exact ⟨g.cursor, f, Preserves.of_ok ⟨_, ho.awaits⟩ hbind⟩

/-- The definitions stay as they are, and so does what an implementation is of. -/
def sourced (i : Nat) (definitions : Array Definition) (parent : Option Nat) : Regime where
  Holds s := s.lowerer = .tree ∧ s.definitions = definitions ∧ (s.impls[i]?.getD default).parent = parent
  Room _ := True
  Loose _ := True

instance (definitions : Array Definition) (parent : Option Nat) : (sourced i definitions parent).Plain where
  lowerer hs := hs.1
  entry _ := trivial
  stands _ _ := trivial
  adds hs _ := hs
  mapBlock _ hs _ := hs
  counted hs := hs
  addBlock _ hs := ⟨hs, trivial⟩
  moveTo hs _ := hs
  printed hs _ _ hlowerer _ himpls hdefinitions _ _ _ :=
    ⟨hlowerer.trans hs.1, hdefinitions.trans hs.2.1, himpls ▸ hs.2.2⟩
  addVariable _ _ hs := ⟨hs, trivial⟩
  setSlot _ hs _ := hs
  setUsed _ _ hs := hs

theorem sources_start (hs : s.program.Sound) (h : start i s = .ok () s₁) :
    s₁.definitions = s.definitions ∧ (s₁.impls[i]?.getD default).parent = (s.impls[i]?.getD default).parent := by
  obtain ⟨f, g, t, ho, hlowerer, -, hbind⟩ := start_eq_ok hs h
  have hlax : (sourced i t.definitions (t.impls[i]?.getD default).parent).Lax := ⟨fun _ => trivial⟩
  obtain ⟨-, hdefinitions, hparent⟩ := holds_of_ok (R := sourced i t.definitions (t.impls[i]?.getD default).parent)
    ⟨hlowerer, rfl, rfl⟩ hbind
  exact ⟨hdefinitions.trans ho.definitions, hparent.trans ho.parent⟩

/-- Lowers an implementation of a function by the rules by which a name that is called is looked up outside it. -/
def lowerDirectly (i : Nat) : Emit Unit := do
  start i
  let impl ← implOf i
  match impl.parent with
  | some d => visitDirectly ((← get).definitions[d]?.getD default).node
  | none => throw .noParentFunction
  let f := (← get).tree
  setBlock f.entry
  branch f.content
  closeBlocks

theorem lowerDirectly_of_isClear {d : Nat} (hs : s.program.Sound) (hparent : (s.impls[i]?.getD default).parent = some d)
    (hclear : isClear (s.definitions[d]?.getD default).node = true) :
    lowerImpl i s = .ok () s' ↔ lowerDirectly i s = .ok () s' := by
  have hstart : Accords (· = s) (start i) (start i) fun _ s₁ => s₁.Idle none true ∧
      s₁.definitions = s.definitions ∧ (s₁.impls[i]?.getD default).parent = some d := by
    rintro _ rfl _ s₁
    refine ⟨.rfl, fun h => ?_⟩
    obtain ⟨hdefinitions, hsame⟩ := sources_start hs h
    exact ⟨idle_start hs h, hdefinitions, hsame.trans hparent⟩
  obtain ⟨c, hc⟩ := Option.isSome_iff_exists.1 hclear
  have hvisit : Idles none true c (visit (s.definitions[d]?.getD default).node)
      (visitDirectly (s.definitions[d]?.getD default).node) := sees_within _ hc
  have hrun : Accords (· = s) (lowerImpl i) (lowerDirectly i) fun _ _ => True := by
    refine hstart.bind fun _ => ?_
    rintro s₁ ⟨hidle, hdefinitions, hparent1⟩
    have himpl : ∀ F : Impl → Emit Unit, (implOf i >>= F) s₁ = F (s₁.impls[i]?.getD default) s₁ := fun _ => rfl
    rw [himpl, himpl]
    dsimp only
    rw [hparent1]
    dsimp only
    rw [get_bind_run, get_bind_run, hdefinitions]
    exact (hvisit.bind fun _ _ _ _ _ => ⟨.rfl, fun _ => trivial⟩) s₁ hidle
  exact (hrun s rfl () s').1

end Trees

/-- A compiler that is to lower a function of one parameter that returns a value. -/
def returningState (value : Node) : State :=
  leftBy (Compile.newDefinition (unaryNode [.mk {} (.ret value)]) Compile.ready)

/-- A call of `g`. -/
def callNode : Node := .mk {} (.call (.mk {} (.name "g" (some .load))) (.group []) (.group []))

/-- A comparison of the parameter with what a call of `g` returns. -/
def lessNode : Node := .mk {} (.compare (.mk {} (.name "x" (some .load))) (some [some .lt]) (.group [callNode]))

end Lower
end Lowering
