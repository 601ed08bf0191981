import ScriptListing.Proofs.Yaml.Alias
import ScriptListing.Yaml.Document

/-! The extent of documents. Every level of a tree is opened by a token of its own, and an alias
is a token after those of its node; so no tree is deeper than its text has tokens. -/
namespace ScriptListing.Yaml

namespace Compose

/-- Room for nodes below `bound`, less the tokens to come, when the deepest so far has
`depth` levels. -/
structure Room (bound depth : Nat) (s : Compose) : Prop where
  tokens : s.tokens.length + 1 < bound
  depth : depth + s.tokens.length < bound
  anchors : ∀ a ∈ s.anchors, ∀ n ∈ a.node, n.depth + s.tokens.length < bound

/-- Room with a token ahead, which pays for one level. -/
structure Ahead (bound depth : Nat) (s : Compose) : Prop extends Room bound depth s where
  ahead : s.tokens ≠ []

namespace Room

variable {bound depth depth' : Nat} {s : Compose}

theorem mono (room : Room bound depth s) (less : depth' ≤ depth) : Room bound depth' s := by
  obtain ⟨tokens, deep, anchors⟩ := room
  exact ⟨tokens, by omega, anchors⟩

theorem deepen (room : Room (bound - 1) depth s) : Room bound (depth + 1) s := by
  obtain ⟨tokens, deep, anchors⟩ := room
  refine ⟨by omega, by omega, fun a known n made => ?_⟩
  have := anchors a known n made
  omega

end Room

variable {α β : Type}

/-- From states with `P` a step leads only to states with `Q`. -/
def Leads (P : Compose → Prop) (step : Step α) (Q : α → Compose → Prop) : Prop :=
  ∀ s, P s → ∀ a s', step s = .ok (a, s') → Q a s'

namespace Leads

variable {P P' : Compose → Prop} {Q : α → Compose → Prop} {R : β → Compose → Prop}

theorem pure {a : α} (done : ∀ s, P s → Q a s) : Leads P (pure a) Q := by
  intro s holds b s' found
  cases found
  exact done s holds

theorem bind {step : Step α} {next : α → Step β} (first : Leads P step Q)
    (second : ∀ a, Leads (Q a) (next a) R) : Leads P (step >>= next) R := by
  intro s holds b s' found
  obtain ⟨⟨a, s₁⟩, step, rest⟩ := Outcome.bind_eq_ok.mp found
  exact second a s₁ (first s holds a s₁ step) b s' rest

theorem pre {step : Step α} (weaker : ∀ s, P s → P' s) (leads : Leads P' step Q) :
    Leads P step Q := fun s holds => leads s (weaker s holds)

theorem fail (problem : String) : Leads P (Compose.fail problem) Q := by
  intro s _ a s' found
  cases found

theorem ite {c : Prop} [Decidable c] {yes no : Step α} (first : Leads P yes Q)
    (second : Leads P no Q) : Leads P (if c then yes else no) Q := by
  split
  · exact first
  · exact second

theorem ahead {bound depth : Nat} {step : Step α} (leads : Leads (Room bound depth) step Q) :
    Leads (Ahead bound depth) step Q := leads.pre fun _ ahead => ahead.toRoom

end Leads

section

variable {bound bound' depth : Nat}

theorem Room.spend {s : Compose} {rest : List Token} (room : Room bound depth s)
    (cost : rest.length + bound ≤ s.tokens.length + bound') :
    Room bound' depth { s with tokens := rest } := by
  obtain ⟨tokens, deep, anchors⟩ := room
  refine ⟨?_, ?_, fun a known n made => ?_⟩
  · dsimp only
    omega
  · dsimp only
    omega
  · have := anchors a known n made
    dsimp only
    omega

theorem get_same {P : Compose → Prop} : Leads P get fun known s => s = known ∧ P s := by
  intro s holds a s' found
  cases found
  exact ⟨rfl, holds⟩

theorem peek_ahead : Leads (Room bound depth) peek fun _ => Ahead bound depth := by
  refine get_same.bind fun known => ?_
  split
  · next t rest tokens =>
    refine .pure fun s same => ⟨same.2, ?_⟩
    rw [same.1, tokens]
    exact List.cons_ne_nil t rest
  · exact .fail _

theorem advance_room : Leads (Room bound depth) advance fun _ => Room bound depth := by
  intro s room a s' found
  cases found
  exact room.spend (by simp)

theorem advance_pays : Leads (Ahead bound depth) advance fun _ => Room (bound - 1) depth := by
  intro s ahead a s' found
  cases found
  have := List.length_pos_iff.mpr ahead.ahead
  have := ahead.tokens
  exact ahead.toRoom.spend (by simp only [List.length_drop]; omega)

theorem peek_room : Leads (Room bound depth) peek fun _ => Room bound depth :=
  fun s room a s' found => (peek_ahead s room a s' found).toRoom

theorem expand_room (handle suffix : String) :
    Leads (Room bound depth) (expand handle suffix) fun _ => Room bound depth := by
  unfold expand
  refine .ite (.pure fun _ => id) (get_same.bind fun known => ?_)
  split
  · exact .pure fun s same => same.2
  · exact .fail _

theorem tagPart_room : Leads (Room bound depth) tagPart fun _ => Room bound depth := by
  refine peek_room.bind fun t => ?_
  split
  · exact advance_room.bind fun _ => (expand_room _ _).bind fun tag => .pure fun _ => id
  · exact .pure fun _ => id

theorem anchorPart_room : Leads (Room bound depth) anchorPart fun _ => Room bound depth := by
  refine peek_room.bind fun t => ?_
  split
  · exact advance_room.bind fun _ => .pure fun _ => id
  · exact .pure fun _ => id

theorem properties_room : Leads (Room bound depth) properties fun _ => Room bound depth := by
  refine anchorPart_room.bind fun name => ?_
  cases name with
  | some name => exact tagPart_room.bind fun tag => .pure fun _ => id
  | none =>
    refine tagPart_room.bind fun tag => ?_
    cases tag with
    | some tag => exact anchorPart_room.bind fun name => .pure fun _ => id
    | none => exact .pure fun _ => id

/-- An open anchor has no node yet. -/
theorem openAnchor_room (name : Option String) :
    Leads (Room bound depth) (openAnchor name) fun _ => Room bound depth := by
  intro s room number s' found
  cases name with
  | none =>
    cases found
    exact room
  | some name =>
    cases found
    refine ⟨room.tokens, room.depth, fun a known n made => ?_⟩
    rcases List.mem_cons.mp known with rfl | earlier
    · cases made
    · exact room.anchors a earlier n made

theorem closeAnchor_room (p : Properties) (number : Nat) (node : Node) :
    Leads (Room bound (max depth node.depth)) (closeAnchor p number node)
      fun n => Room bound (max depth n.depth) := by
  intro s room made s' found
  unfold closeAnchor at found
  by_cases named : p.anchor.isSome
  · rw [if_pos named] at found
    cases found
    refine ⟨room.tokens, room.depth, fun a known n made => ?_⟩
    obtain ⟨before, earlier, rfl⟩ := List.mem_map.mp known
    split at made
    · cases made
      have := room.depth
      dsimp only
      omega
    · exact room.anchors before earlier n made
  · rw [if_neg named] at found
    cases found
    exact room

/-- A step after which the deepest node is at most as deep as it costs. -/
def Grows (cost : α → Nat) (step : Step α) : Prop :=
  ∀ bound depth, Leads (Room bound depth) step fun a => Room bound (max depth (cost a))

theorem aliasNode_grows (name : String) (line : Nat) : Grows Node.depth (aliasNode name line) := by
  intro bound depth
  refine get_same.bind fun known => ?_
  split
  · exact .fail _
  · next a listed =>
    split
    · next target complete =>
      rintro s ⟨rfl, room⟩ made s' found
      cases found
      have below := room.anchors a (List.mem_of_find?_eq_some listed) target complete
      have := room.depth
      refine ⟨room.tokens, ?_, room.anchors⟩
      simp only [Node.depth]
      omega
    · rintro s ⟨rfl, room⟩ made s' found
      cases found
      exact ⟨room.tokens, by simpa [Node.depth] using room.depth, room.anchors⟩

/-- Places without a node, and scalars, are not deep. -/
@[simp] theorem empty_depth (line : Nat) : (Node.empty line).depth = 0 := by
  unfold Node.empty Node.ofPlain
  split <;> rfl

@[simp] theorem scalarNode_depth (p : Properties) (plain : Bool) (text : String) (line : Nat) :
    (scalarNode p plain text line).depth = 0 := by
  unfold scalarNode Node.ofPlain
  split
  · split
    · split <;> rfl
    · rfl
  · rfl

theorem bare_grows (p : Properties) (line : Nat) : Grows Node.depth (bare p line) := by
  intro bound depth
  rw [bare]
  exact .ite (.pure fun s room => room.mono (by simp)) (.fail _)

end

/-- Between the parts of a flow collection there is a comma, not before the first. -/
theorem afterComma {bound depth : Nat} (first : Bool) (problem : String) {rest : Step α}
    {Q : α → Compose → Prop} (leads : Leads (Room bound depth) rest Q) :
    Leads (Room bound depth) (if first = true then rest else peek >>= fun t =>
      if t.kind = .flowEntry then advance >>= fun _ => rest
      else (Compose.fail problem : Step PUnit) >>= fun _ => rest) Q := by
  refine .ite leads (peek_room.bind fun t => .ite (advance_room.bind fun _ => leads) ?_)
  exact (Leads.fail problem).bind fun _ => leads

structure Bounded (fuel : Nat) : Prop where
  node (block indentless : Bool) : Grows Node.depth (node block indentless fuel)
  nodeUnless (ends : List Token.Kind) (block indentless : Bool) (line : Nat) :
    Grows Node.depth (nodeUnless ends block indentless line fuel)
  blockItems : Grows Node.depthItems (blockItems fuel)
  indentlessItems : Grows (fun items => Node.depthItems items + 1) (indentlessItems fuel)
  blockEntries : Grows Node.depthEntries (blockEntries fuel)
  blockValue : Grows Node.depth (blockValue fuel)
  flowItems (first : Bool) : Grows Node.depthItems (flowItems first fuel)
  flowPair : Grows (fun e => max e.1.depth e.2.depth) (flowPair fuel)
  flowEntries (first : Bool) : Grows Node.depthEntries (flowEntries first fuel)

theorem bounded_zero : Bounded 0 where
  node _ _ _ _ := .fail _
  nodeUnless _ _ _ _ _ _ := .fail _
  blockItems _ _ := .fail _
  indentlessItems _ _ := .fail _
  blockEntries _ _ := .fail _
  blockValue _ _ := .fail _
  flowItems _ _ _ := .fail _
  flowPair _ _ := .fail _
  flowEntries _ _ _ := .fail _

section

variable {fuel : Nat} (parts : Bounded fuel)
include parts

theorem node_grows (block indentless : Bool) :
    Grows Node.depth (node block indentless (fuel + 1)) := by
  intro bound depth
  rw [node]
  refine peek_room.bind fun first => ?_
  split
  · exact advance_room.bind fun _ => aliasNode_grows _ _ bound depth
  refine properties_room.bind fun p => (openAnchor_room _).bind fun number => ?_
  have close (made : Node) : Leads (Room bound (max depth made.depth)) (closeAnchor p number made)
      fun n => Room bound (max depth n.depth) := closeAnchor_room p number made
  -- The token that opens a collection pays for its level.
  have sequence (tag : String) (items : List Node) :
      Leads (Room (bound - 1) (max depth (Node.depthItems items)))
        (pure (.sequence tag items first.line) >>= closeAnchor p number)
        fun n => Room bound (max depth n.depth) :=
    (Leads.pure fun s room => room.deepen.mono (by rw [Node.depth]; omega)).bind close
  have mapping (tag : String) (entries : List (Node × Node)) :
      Leads (Room (bound - 1) (max depth (Node.depthEntries entries)))
        (pure (.mapping tag entries first.line) >>= closeAnchor p number)
        fun n => Room bound (max depth n.depth) :=
    (Leads.pure fun s room => room.deepen.mono (by rw [Node.depth]; omega)).bind close
  have lone : Leads (Ahead bound depth) (bare p first.line >>= closeAnchor p number)
      fun n => Room bound (max depth n.depth) :=
    ((bare_grows p first.line bound depth).bind close).ahead
  refine peek_ahead.bind fun t => ?_
  dsimp only
  split
  · refine advance_room.ahead.bind fun _ => ?_
    exact (Leads.pure fun s room => room.mono (by simp)).bind close
  · refine advance_pays.bind fun _ => (parts.flowItems true _ depth).bind fun items => ?_
    exact sequence _ items
  · refine advance_pays.bind fun _ => (parts.flowEntries true _ depth).bind fun entries => ?_
    exact mapping _ entries
  · refine .ite ?_ lone
    refine (parts.indentlessItems bound depth).ahead.bind fun items => ?_
    exact (Leads.pure fun s room => room.mono (by simp [Node.depth])).bind close
  · refine .ite ?_ lone
    refine advance_pays.bind fun _ => (parts.blockItems _ depth).bind fun items => ?_
    exact sequence _ items
  · refine .ite ?_ lone
    refine advance_pays.bind fun _ => (parts.blockEntries _ depth).bind fun entries => ?_
    exact mapping _ entries
  · exact lone

theorem nodeUnless_grows (ends : List Token.Kind) (block indentless : Bool) (line : Nat) :
    Grows Node.depth (nodeUnless ends block indentless line (fuel + 1)) := by
  intro bound depth
  rw [nodeUnless]
  refine peek_room.bind fun t => .ite (.pure fun s room => room.mono ?_) ?_
  · simp
  · exact parts.node block indentless bound depth

theorem blockItems_grows : Grows Node.depthItems (blockItems (fuel + 1)) := by
  intro bound depth
  rw [blockItems]
  refine peek_room.bind fun t => ?_
  split
  · refine advance_room.bind fun _ => (parts.nodeUnless _ _ _ _ bound depth).bind fun item => ?_
    refine (parts.blockItems bound _).bind fun rest => .pure fun s room => room.mono ?_
    rw [Node.depthItems]
    omega
  · exact advance_room.bind fun _ => .pure fun s room => room.mono (by simp [Node.depthItems])
  · exact .fail _

theorem indentlessItems_grows :
    Grows (fun items => Node.depthItems items + 1) (indentlessItems (fuel + 1)) := by
  intro bound depth
  rw [indentlessItems]
  refine peek_ahead.bind fun t => ?_
  split
  · refine advance_pays.bind fun _ => (parts.nodeUnless _ _ _ _ _ depth).bind fun item => ?_
    refine ((parts.indentlessItems bound _).pre fun s room => room.deepen).bind fun rest => ?_
    refine .pure fun s room => room.mono ?_
    simp only [Node.depthItems]
    omega
  · refine .pure fun s ahead => ⟨ahead.tokens, ?_, ahead.anchors⟩
    have := ahead.tokens
    have := ahead.depth
    simp only [Node.depthItems]
    omega

theorem blockEntries_grows : Grows Node.depthEntries (blockEntries (fuel + 1)) := by
  intro bound depth
  rw [blockEntries]
  refine peek_room.bind fun t => ?_
  split
  · refine advance_room.bind fun _ => (parts.nodeUnless _ _ _ _ bound depth).bind fun key => ?_
    refine (parts.blockValue bound _).bind fun value => ?_
    refine (parts.blockEntries bound _).bind fun rest => .pure fun s room => room.mono ?_
    rw [Node.depthEntries]
    omega
  · exact advance_room.bind fun _ => .pure fun s room => room.mono (by simp [Node.depthEntries])
  · exact .fail _

theorem blockValue_grows : Grows Node.depth (blockValue (fuel + 1)) := by
  intro bound depth
  rw [blockValue]
  refine peek_room.bind fun t => ?_
  split
  · exact advance_room.bind fun _ => parts.nodeUnless _ _ _ _ bound depth
  · exact .pure fun s room => room.mono (by simp)

theorem flowItems_grows (first : Bool) : Grows Node.depthItems (flowItems first (fuel + 1)) := by
  intro bound depth
  rw [flowItems]
  have last : Leads (Room bound depth) (advance >>= fun _ => pure [])
      fun items => Room bound (max depth (Node.depthItems items)) :=
    advance_room.bind fun _ => .pure fun s room => room.mono (by simp [Node.depthItems])
  refine peek_room.bind fun t => .ite last (afterComma first _ (peek_ahead.bind fun t => ?_))
  split
  · exact last.ahead
  · refine advance_pays.bind fun _ => (parts.flowPair _ depth).bind fun entry => ?_
    refine ((parts.flowItems false bound _).pre fun s room => room.deepen).bind fun rest => ?_
    refine .pure fun s room => room.mono ?_
    simp only [Node.depthItems, Node.depth, Node.depthEntries]
    omega
  · refine (parts.node _ _ bound depth).ahead.bind fun item => ?_
    refine (parts.flowItems false bound _).bind fun rest => .pure fun s room => room.mono ?_
    rw [Node.depthItems]
    omega

theorem flowPair_grows : Grows (fun e => max e.1.depth e.2.depth) (flowPair (fuel + 1)) := by
  intro bound depth
  rw [flowPair]
  have afterKey (key : Node) : Leads (Room bound (max depth key.depth))
      (peek >>= fun t => if t.kind = .value then
        advance >>= fun _ => peek >>= fun next =>
          nodeUnless [.flowEntry, .flowSequenceEnd] false false next.line fuel >>= fun value =>
            pure (key, value)
        else pure (key, .empty t.line))
      fun e => Room bound (max depth (max e.1.depth e.2.depth)) := by
    refine peek_room.bind fun t => .ite ?_ (.pure fun s room => room.mono (by simp))
    refine advance_room.bind fun _ => peek_room.bind fun next => ?_
    refine (parts.nodeUnless _ _ _ _ bound _).bind fun value => .pure fun s room => room.mono ?_
    simp only
    omega
  refine peek_room.bind fun t => .ite ?_ ((parts.node _ _ bound depth).bind afterKey)
  refine advance_room.bind fun _ => ?_
  exact (Leads.pure fun s room => room.mono (by simp)).bind afterKey

theorem flowEntries_grows (first : Bool) :
    Grows Node.depthEntries (flowEntries first (fuel + 1)) := by
  intro bound depth
  rw [flowEntries]
  have last : Leads (Room bound depth) (advance >>= fun _ => pure [])
      fun entries => Room bound (max depth (Node.depthEntries entries)) :=
    advance_room.bind fun _ => .pure fun s room => room.mono (by simp [Node.depthEntries])
  have more (key value : Node) : Leads (Room bound (max (max depth key.depth) value.depth))
      (flowEntries false fuel >>= fun rest => pure ((key, value) :: rest))
      fun entries => Room bound (max depth (Node.depthEntries entries)) := by
    refine (parts.flowEntries false bound _).bind fun rest => .pure fun s room => room.mono ?_
    rw [Node.depthEntries]
    omega
  have alone (key : Node) (line : Nat) : Leads (Room bound (max depth key.depth))
      (flowEntries false fuel >>= fun rest => pure ((key, .empty line) :: rest))
      fun entries => Room bound (max depth (Node.depthEntries entries)) :=
    (more key (.empty line)).pre fun s room => room.mono (by simp)
  refine peek_room.bind fun t => .ite last (afterComma first _ (peek_room.bind fun t => ?_))
  split
  · exact last
  · refine advance_room.bind fun _ => peek_room.bind fun next => ?_
    refine (parts.nodeUnless _ _ _ _ bound depth).bind fun key => peek_room.bind fun t => ?_
    refine .ite ?_ (alone key t.line)
    refine advance_room.bind fun _ => peek_room.bind fun next => ?_
    exact (parts.nodeUnless _ _ _ _ bound _).bind fun value => more key value
  · refine (parts.node _ _ bound depth).bind fun key => peek_room.bind fun t => ?_
    exact alone key t.line

end

theorem bounded (fuel : Nat) : Bounded fuel := by
  induction fuel with
  | zero => exact bounded_zero
  | succ fuel parts =>
    exact ⟨node_grows parts, nodeUnless_grows parts, blockItems_grows parts,
      indentlessItems_grows parts, blockEntries_grows parts, blockValue_grows parts,
      flowItems_grows parts, flowPair_grows parts, flowEntries_grows parts⟩

section

variable {bound depth : Nat}

theorem discard_room : Leads (Room bound depth) (discard peek) fun _ => Room bound depth := by
  have goes : (discard peek : Step PUnit) = peek >>= fun _ => pure () := rfl
  rw [goes]
  exact peek_room.bind fun _ => .pure fun _ => id

theorem handles_room (handles : Compose → List (String × String)) :
    Leads (Room bound depth) (modify fun s => { s with handles := handles s })
      fun _ => Room bound depth := by
  intro s room a s' found
  cases found
  exact ⟨room.tokens, room.depth, room.anchors⟩

theorem Leads.unless {P : Compose → Prop} {Q : α → Compose → Prop} {c : Prop} [Decidable c]
    {problem : String} {rest : Step α} (leads : Leads P rest Q) :
    Leads P (if c then (Compose.fail problem : Step PUnit) >>= fun _ => rest else rest) Q :=
  .ite ((Leads.fail (Q := fun _ => P) problem).bind fun _ => leads) leads

theorem directives_room (fuel : Nat) (versioned : Bool) :
    Leads (Room bound depth) (directives versioned fuel) fun _ => Room bound depth := by
  induction fuel generalizing versioned with
  | zero => exact .fail _
  | succ fuel ih =>
    rw [directives]
    refine peek_room.bind fun t => ?_
    split
    · exact .unless (.unless (advance_room.bind fun _ => ih true))
    · refine get_same.bind fun known => .unless (.pre (fun s same => same.2) ?_)
      exact (handles_room _).bind fun _ => advance_room.bind fun _ => ih versioned
    · exact .pure fun _ => id

theorem content_grows (fuel : Nat) : Grows Node.depth (content fuel) := by
  intro bound depth
  rw [content]
  refine peek_room.bind fun t => ?_
  have nothing : Leads (Room bound depth) (pure (Node.empty t.line))
      fun n => Room bound (max depth n.depth) := .pure fun s room => room.mono (by simp)
  split
  · exact nothing
  · exact nothing
  · exact nothing
  · exact nothing
  · exact nothing
  · exact (bounded fuel).node true false bound depth

theorem document_depth (fuel : Nat) :
    Leads (Room bound depth) (document fuel) fun root _ => ∀ n ∈ root, n.depth < bound := by
  have whole (n : Node) : Leads (Room bound (max depth n.depth))
      (discard peek >>= fun _ => pure (some n)) fun root _ => ∀ n ∈ root, n.depth < bound := by
    refine discard_room.bind fun _ => .pure fun s room m found => ?_
    cases found
    have := room.depth
    omega
  have marked : Leads (Room bound depth) (document.explicit fuel)
      fun root _ => ∀ n ∈ root, n.depth < bound := by
    refine (directives_room fuel false).bind fun _ => (handles_room _).bind fun _ => ?_
    refine peek_room.bind fun t => .unless (advance_room.bind fun _ => ?_)
    exact (content_grows fuel bound depth).bind whole
  refine discard_room.bind fun _ => advance_room.bind fun _ => peek_room.bind fun t => ?_
  split
  · exact .pure fun s room n found => nomatch found
  · exact marked
  · exact marked
  · exact marked
  · exact (handles_room _).bind fun _ => ((bounded fuel).node _ _ bound depth).bind whole

end

end Compose

/-- No node of a text is deeper than the extent of its document. -/
theorem readDocument_extent {bytes : List UInt8} {d : Document}
    (found : readDocument bytes = .ok (some d)) {n : Node} (part : n ∈ d.root.all) :
    n.depth ≤ d.extent := by
  refine Nat.le_trans (Node.depth_part d.root n part) ?_
  unfold readDocument at found
  generalize Tokens.ofSource (.ofBytes bytes) = tokens at found
  dsimp only at found
  split at found
  · cases found
  · cases found
  · next root s made =>
    cases found
    have start : Compose.Room (tokens.list.length + 2) 0
        { tokens := tokens.list, problem := tokens.problem } :=
      ⟨Nat.lt_succ_self _, by dsimp only; omega, by simp⟩
    have bounded := Compose.document_depth _ _ start _ _ made root rfl
    calc root.depth ≤ 4 * tokens.list.length + 4 := by omega
      _ ≤ (s.cycles.length + 1) * (4 * tokens.list.length + 4) :=
        Nat.le_mul_of_pos_left _ (Nat.succ_pos _)

/-- The documents that a node stands in: a document of its own, or one read from a text. -/
inductive Document.Holds : Document → Node → Prop where
  | own (n : Node) : Holds (.ofNode n) n
  | read {bytes : List UInt8} {d : Document} {n : Node}
      (found : readDocument bytes = .ok (some d)) (part : n ∈ d.root.all) : Holds d n

theorem Document.Holds.room {d : Document} {n : Node} (holds : d.Holds n) :
    n.depth ≤ d.extent := by
  cases holds with
  | own => exact n.depth_le_size
  | read found part => exact readDocument_extent found part

end ScriptListing.Yaml
