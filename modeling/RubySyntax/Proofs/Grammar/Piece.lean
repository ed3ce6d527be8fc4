/-
The pieces of literals, and strings that are joined.

Joining dissolves a string with interpolations and gives back the texts that
it joins to others. No other node may refer to these, so the pieces of a
string are followed from where they are made: each belongs to its string
alone.
-/

import RubySyntax.Proofs.Grammar.Condition
import RubySyntax.Grammar.Literal

namespace RubySyntax

variable {strict : Prop} {base state after : State} {handles : List Handle}
  {owner : Option NodeId} {id : NodeId}

/-! ### Nodes that belong to one other -/

/-- A node that is no key and waits for no body, and to which at most its
owner refers. -/
structure Owned (state : State) (owner : Option NodeId) (id : NodeId) : Prop where
  plain : ∃ node, state.arena.get? id = some node ∧ ¬node.shape.IsSymbol
  parents : ∀ parent, state.arena.Child parent id → owner = some parent
  unawaited : id ∉ state.lexer.awaited

structure Loose (state : State) (ids : List NodeId) : Prop where
  distinct : ids.Nodup
  owned : ∀ id ∈ ids, Owned state none id

namespace Owned

theorem live (owned : Owned state owner id) : state.arena.Live id :=
  ⟨owned.plain.choose, owned.plain.choose_spec.1⟩

theorem not_key (owned : Owned state owner id) (sound : state.Sound strict) :
    state.quotedKey ≠ some id :=
  sound.not_key owned.plain.choose_spec.1 owned.plain.choose_spec.2

theorem no_parent (owned : Owned state none id) (parent : NodeId) :
    ¬state.arena.Child parent id :=
  fun linked => nomatch owned.parents parent linked

theorem rooted (owned : Owned state none id) : state.arena.Rooted id :=
  ⟨owned.live, .inl owned.no_parent⟩

theorem made (owned : Owned state owner id) (held : Held strict base handles state)
    (mine : .node id ∈ handles) : ¬base.arena.Live id :=
  held.fresh mine owned.plain.choose_spec.1 owned.plain.choose_spec.2

/-- A root that is neither a key nor an empty text belongs to none. -/
theorem of_rooted (sound : state.Sound strict) (rooted : state.arena.Rooted id) {node : Node}
    (found : state.arena.get? id = some node) (plain : ¬node.shape.IsSymbol)
    (filled : node.shape ≠ .text .string []) : Owned state none id where
  plain := ⟨node, found, plain⟩
  parents parent linked := absurd linked (rooted.no_parent found plain parent)
  unawaited := sound.not_awaited found filled

theorem shape (owned : Owned base owner id) (held : Held strict base handles state)
    {node : Node} (found : base.arena.get? id = some node) :
    ∃ kept, state.arena.get? id = some kept ∧ kept.shape = node.shape :=
  held.keeps.shapes id node found owned.unawaited

theorem keeps (owned : Owned base owner id) (held : Held strict base handles state) :
    Owned state owner id where
  plain := by
    obtain ⟨node, found, plain⟩ := owned.plain
    obtain ⟨kept, holds, same⟩ := held.keeps.shapes id node found owned.unawaited
    exact ⟨kept, holds, same ▸ plain⟩
  parents parent linked := by
    rcases held.keeps.edges parent id owned.live linked with old | key
    · exact owned.parents parent old
    · exact absurd key (owned.not_key held.start)
  unawaited member := owned.unawaited (held.keeps.awaited id member owned.live)

theorem put (owned : Owned state owner id) {slot : NodeId} {content : Option Node}
    (puts : state.arena.Puts slot content after.arena) (lexer : after.lexer = state.lexer)
    (childless : ∀ node, content = some node → node.shape.children = [])
    (stays : id = slot → ∃ node, content = some node ∧ ¬node.shape.IsSymbol) :
    Owned after owner id where
  plain := by
    by_cases same : id = slot
    · obtain ⟨node, stored, plain⟩ := stays same
      exact ⟨node, (same ▸ puts.at_slot).trans stored, plain⟩
    · rw [puts.apart same]
      exact owned.plain
  parents parent linked := by
    rcases puts.link linked with ⟨-, node, stored, member⟩ | ⟨-, old⟩
    · rw [childless node stored] at member
      cases member
    · exact owned.parents parent old
  unawaited := lexer ▸ owned.unawaited

theorem store (owned : Owned state owner id) {shape : Shape NodeId} {new : NodeId}
    (stored : Scan.Stored state shape new after) (apart : id ∉ shape.children) :
    Owned after owner id where
  plain := by
    obtain ⟨_, -, puts⟩ := stored.puts
    rw [puts.apart fun same => stored.not_live (same ▸ owned.live)]
    exact owned.plain
  parents parent linked := by
    rcases stored.link linked with ⟨-, member⟩ | old
    · exact absurd member apart
    · exact owned.parents parent old
  unawaited := stored.lexer ▸ owned.unawaited

theorem of_stored {shape : Shape NodeId} (stored : Scan.Stored state shape id after)
    (held : Held strict base handles state) (plain : ¬shape.IsSymbol)
    (rooted : after.arena.Rooted id) : Owned after none id where
  plain := by
    obtain ⟨node, found, same⟩ := stored.found
    exact ⟨node, found, same ▸ plain⟩
  parents parent linked := by
    obtain ⟨node, found, same⟩ := stored.found
    exact absurd linked (rooted.no_parent found (same ▸ plain) parent)
  unawaited member := by
    rw [stored.lexer] at member
    obtain ⟨node, found, -⟩ := held.sound.waiting id member
    exact stored.not_live ⟨node, found⟩

end Owned

namespace Loose

variable {ids : List NodeId}

theorem nil : Loose state [] :=
  ⟨List.nodup_nil, nofun⟩

theorem keeps (loose : Loose base ids) (held : Held strict base handles state) :
    Loose state ids :=
  ⟨loose.distinct, fun id member => (loose.owned id member).keeps held⟩

/-- A node is added that was not alive when the others were loose already. -/
theorem append (loose : Loose base ids) (held : Held strict base handles state)
    (owned : Owned state none id) (made : ¬base.arena.Live id) : Loose state (ids ++ [id]) where
  distinct := by
    refine List.nodup_append.mpr ⟨loose.distinct, List.nodup_singleton _, ?_⟩
    rintro other member _ listed rfl
    rw [List.mem_singleton.mp listed] at member
    exact made (loose.owned id member).live
  owned other member := by
    rcases List.mem_append.mp member with old | new
    · exact (loose.owned other old).keeps held
    · exact List.mem_singleton.mp new ▸ owned

end Loose

/-! ### Pieces -/

namespace Part

def codes (parts : List Part) : List NodeId :=
  parts.filterMap fun
    | .code node => some node
    | .text .. => none

@[simp] theorem codes_nil : codes [] = [] := rfl

@[simp] theorem codes_text (bytes : Bytes) (span : Span) (lineHead : Bool)
    (parts : List Part) : codes (.text bytes span lineHead :: parts) = codes parts := rfl

@[simp] theorem codes_code (node : NodeId) (parts : List Part) :
    codes (.code node :: parts) = node :: codes parts := rfl

@[simp] theorem codes_append (left right : List Part) :
    codes (left ++ right) = codes left ++ codes right :=
  List.filterMap_append

theorem codes_reverse (parts : List Part) : codes parts.reverse = (codes parts).reverse :=
  List.filterMap_reverse

theorem codes_join (joined : List Part) (part : Part) :
    codes (join joined part) = codes (part :: joined) := by
  unfold join
  split <;> simp

theorem codes_foldl_join (parts joined : List Part) :
    codes (parts.foldl join joined) = (codes parts).reverse ++ codes joined := by
  induction parts generalizing joined with
  | nil => rfl
  | cons part parts ih =>
      rw [List.foldl_cons, ih, codes_join]
      cases part <;> simp

theorem codes_joinAll (parts : List Part) : codes (joinAll parts) = codes parts := by
  unfold joinAll
  rw [codes_reverse, codes_foldl_join]
  simp

theorem codes_dedent (parts : List Part) : codes (dedent parts) = codes parts := by
  have stripped (width : Nat) : codes (parts.map (strip width)) = codes parts := by
    unfold codes
    rw [List.filterMap_map]
    refine List.filterMap_congr fun part _ => ?_
    cases part with
    | code node => rfl
    | text bytes span lineHead => cases lineHead <;> rfl
  unfold dedent
  split
  · rfl
  · exact stripped _

end Part

namespace Scan

/-! ### Shapes of literals -/

theorem partNodes_ends : ∀ {parts : List Part} {state : State}, state.Sound strict →
    Loose state (Part.codes parts) →
    Ends (parts.mapM partNode) state fun ids reached =>
      Held strict state [] reached ∧ Still state reached ∧ Loose reached ids ∧
        ∀ id ∈ ids, id ∈ Part.codes parts ∨ (reached.arena.Live id ∧ ¬state.arena.Live id)
  | [], state, sound, _ =>
      ends_pure ⟨Held.refl sound, Still.refl state, Loose.nil, List.forall_mem_nil _⟩
  | .code node :: parts, state, sound, loose => by
      have apart := List.nodup_cons.mp loose.distinct
      rw [List.mapM_cons]
      refine Ends.bind (ends_pure rfl : Ends (partNode (.code node)) state
        fun result reached => (result, reached) = (node, state)) ?_
      rintro _ _ ⟨⟩
      refine (partNodes_ends sound ⟨apart.2, fun id member =>
        loose.owned id (List.mem_cons_of_mem _ member)⟩).bind ?_
      rintro ids reached ⟨held, still, found, origin⟩
      have own := loose.owned node List.mem_cons_self
      refine ends_pure ⟨held, still, ⟨List.nodup_cons.mpr ⟨fun member => ?_, found.distinct⟩,
        ?_⟩, ?_⟩
      · rcases origin node member with old | new
        · exact apart.1 old
        · exact new.2 own.live
      · intro id member
        rcases List.mem_cons.mp member with rfl | member
        · exact own.keeps held
        · exact found.owned id member
      · intro id member
        rcases List.mem_cons.mp member with rfl | member
        · exact .inl List.mem_cons_self
        · exact (origin id member).imp_left (List.mem_cons_of_mem _)
  | .text bytes span lineHead :: parts, state, sound, loose => by
      rw [List.mapM_cons]
      refine (alloc_stores (Held.refl sound) (by simp) span).bind ?_
      rintro text stored ⟨held, still, rooted, placed⟩
      have own : Owned stored none text :=
        .of_stored placed (Held.refl sound) (by simp [Shape.IsSymbol]) rooted
      have earlier : Held strict state [] stored := held.forget
      have codes : Loose stored (Part.codes parts) := loose.keeps earlier
      refine (partNodes_ends held.sound codes).bind ?_
      rintro ids reached ⟨later, quiet, found, origin⟩
      refine ends_pure ⟨earlier.next later, still.trans quiet,
        ⟨List.nodup_cons.mpr ⟨fun member => ?_, found.distinct⟩, ?_⟩, ?_⟩
      · rcases origin text member with code | new
        · exact placed.not_live (loose.owned text code).live
        · exact new.2 own.live
      · intro id member
        rcases List.mem_cons.mp member with rfl | member
        · exact own.keeps later
        · exact found.owned id member
      · intro id member
        rcases List.mem_cons.mp member with rfl | member
        · exact .inr ⟨later.keeps.live id own.live, placed.not_live⟩
        · exact (origin id member).imp_right fun new =>
            ⟨new.1, fun alive => new.2 (earlier.keeps.live id alive)⟩

structure LiteralRead (kind : LiteralKind) (shape : Shape NodeId) (state : State) : Prop where
  key : kind = .symbol → shape.IsSymbol
  string : kind = .string → (∃ bytes, shape = .text .string bytes) ∨
    ∃ ids, shape = .list .string ids ∧ Loose state ids
  unjoined : shape.joined = []

theorem textShape_builds (held : Held strict base handles state) (kind : LiteralKind)
    (bytes : Bytes) (flags : String) :
    Builds strict base handles (textShape kind bytes flags) state (LiteralRead kind) := by
  have symbol (symbolic : kind ≠ .string) :
      Builds strict base handles (do return .named .symbol (← intern bytes)) state
        (LiteralRead kind) := by
    refine (intern_builds held bytes).bind ?_
    rintro name reached ⟨held, still, -⟩
    exact ends_pure ⟨held.weaken (by simp +contextual [handlesOf]), still,
      fun _ => trivial, fun string => absurd string symbolic, rfl⟩
  have text (shape : Shape NodeId) (empty : handlesOf shape = [])
      (read : LiteralRead kind shape state) :
      Builds strict base handles (pure shape) state (LiteralRead kind) := by
    refine ends_pure ⟨?_, Still.refl state, read⟩
    rw [empty]
    exact held
  cases kind with
  | string => exact text _ rfl ⟨nofun, fun _ => .inl ⟨bytes, rfl⟩, rfl⟩
  | words => exact text _ rfl ⟨nofun, nofun, rfl⟩
  | shell => exact text _ rfl ⟨nofun, nofun, rfl⟩
  | regexp => exact text _ rfl ⟨nofun, nofun, rfl⟩
  | symbol => exact symbol nofun
  | symbols => exact symbol nofun

theorem literalShape_builds (held : Held strict base handles state) {parts : List Part}
    (mine : ∀ id ∈ Part.codes parts, .node id ∈ handles)
    (loose : Loose state (Part.codes parts)) (kind : LiteralKind) (flags : String) :
    Builds strict base handles (literalShape kind parts flags) state (LiteralRead kind) := by
  rw [← Part.codes_joinAll] at mine loose
  unfold literalShape
  split
  · exact textShape_builds held kind _ flags
  · exact textShape_builds held kind _ flags
  · refine (partNodes_ends held.sound loose).bind ?_
    rintro ids reached ⟨later, still, found, origin⟩
    have next := held.next later
    have gained : Held strict base (handlesOf ids ++ handles) reached := by
      refine next.gain ?_
      rw [forall_handlesOf_list]
      intro id member
      rcases origin id member with code | new
      · exact next.valid _ (mine id code)
      · exact ⟨new.1, fun alive => absurd (held.keeps.live id alive) new.2⟩
    refine ends_pure ⟨?_, still, ?_⟩
    · cases kind <;> exact gained.weaken (by simp +contextual [partsShape, or_imp, handlesOf])
    · cases kind with
      | string => exact ⟨by rintro ⟨⟩, fun _ => .inr ⟨ids, rfl, found⟩, rfl⟩
      | symbol => exact ⟨fun _ => trivial, by rintro ⟨⟩, rfl⟩
      | words => exact ⟨by rintro ⟨⟩, by rintro ⟨⟩, rfl⟩
      | shell => exact ⟨by rintro ⟨⟩, by rintro ⟨⟩, rfl⟩
      | regexp => exact ⟨by rintro ⟨⟩, by rintro ⟨⟩, rfl⟩
      | symbols => exact ⟨by rintro ⟨⟩, by rintro ⟨⟩, rfl⟩

/-! ### Joining strings -/

structure StringAlone (state : State) (id : NodeId) : Prop where
  owned : Owned state none id
  shape : ∃ node, state.arena.get? id = some node ∧
    ((∃ bytes, node.shape = .text .string bytes) ∨
      ∃ parts, node.shape = .list .string parts ∧ parts.Nodup ∧
        ∀ part ∈ parts, Owned state (some id) part)

namespace StringAlone

theorem keeps (alone : StringAlone base id) (held : Held strict base handles state) :
    StringAlone state id where
  owned := alone.owned.keeps held
  shape := by
    obtain ⟨node, found, shape⟩ := alone.shape
    obtain ⟨kept, holds, same⟩ := held.keeps.shapes id node found alone.owned.unawaited
    refine ⟨kept, holds, ?_⟩
    rw [same]
    refine shape.imp_right ?_
    rintro ⟨parts, list, distinct, owned⟩
    exact ⟨parts, list, distinct, fun part member => (owned part member).keeps held⟩

theorem of_text {node : Node} {bytes : Bytes} (owned : Owned state none id)
    (found : state.arena.get? id = some node) (text : node.shape = .text .string bytes) :
    StringAlone state id :=
  ⟨owned, node, found, .inl ⟨bytes, text⟩⟩

theorem of_stored {shape : Shape NodeId} (stored : Stored state shape id after)
    (held : Held strict base handles state) (rooted : after.arena.Rooted id)
    (read : (∃ bytes, shape = .text .string bytes) ∨
      ∃ ids, shape = .list .string ids ∧ Loose state ids) : StringAlone after id where
  owned := by
    refine Owned.of_stored stored held ?_ rooted
    rcases read with ⟨bytes, rfl⟩ | ⟨ids, rfl, -⟩ <;> nofun
  shape := by
    obtain ⟨node, found, same⟩ := stored.found
    refine ⟨node, found, ?_⟩
    rw [same]
    refine read.imp_right ?_
    rintro ⟨ids, list, loose⟩
    refine ⟨ids, list, loose.distinct, fun part member => ?_⟩
    have own := loose.owned part member
    obtain ⟨_, -, puts⟩ := stored.puts
    have different : part ≠ id := by
      rintro rfl
      exact stored.not_live own.live
    refine ⟨?_, fun parent linked => ?_, ?_⟩
    · rw [puts.apart different]
      exact own.plain
    · rcases stored.link linked with ⟨rfl, -⟩ | old
      · rfl
      · exact absurd old (own.no_parent parent)
    · rw [stored.lexer]
      exact own.unawaited

end StringAlone

theorem modifyText_ends (held : Held strict base handles state) (mine : .node id ∈ handles)
    (owned : Owned state none id) {node : Node} {f : Node → Node}
    (found : state.arena.get? id = some node) {bytes : Bytes}
    (text : (f node).shape = .text .string bytes) :
    Ends (modifyNode id f) state fun _ after =>
      Held strict base handles after ∧ Still state after ∧
        after.arena.get? id = some (f node) ∧
        ∀ other, Owned state none other → Owned after none other := by
  have made := owned.made held mine
  refine modifyNode_ends found fun arena puts free => ⟨?_, ⟨rfl, rfl, rfl⟩, puts.at_slot, ?_⟩
  · refine held.reshape (fun alive => absurd alive made) owned.unawaited
      (owned.not_key held.sound) ?_ ?_ ?_ ?_ puts (free held.sound.store.free)
    · simp [text]
    · simp [text]
    · simp [text, Shape.joined]
    · simp [text]
  · intro other own
    refine own.put puts rfl ?_ fun _ => ⟨f node, rfl, by rw [text]; rintro ⟨⟩⟩
    rintro _ ⟨⟩
    rw [text]
    rfl

/-- The pieces of a string belong to none once the string is dissolved. -/
theorem stringParts_ends (held : Held strict base handles state) (mine : .node id ∈ handles)
    (alone : StringAlone state id) {others : List NodeId}
    (kept : ∀ other ∈ others, .node other ∈ handles ∧ other ≠ id) :
    Ends (stringParts id) state fun parts after =>
      Held strict base (handlesOf parts ++ handlesOf others) after ∧ Still state after ∧
        Loose after parts ∧ (∀ part ∈ parts, part = id ∨ state.arena.Child id part) ∧
        (∀ other ≠ id, after.arena.get? other = state.arena.get? other) ∧
        ∀ other ≠ id, ∀ owner, Owned state owner other → Owned after owner other := by
  obtain ⟨node, found, shape⟩ := alone.shape
  refine (shapeOf_looks ⟨node, found⟩).bind ?_
  rintro _ ⟨_, holds, rfl⟩
  rw [found] at holds
  cases holds
  rcases shape with ⟨bytes, text⟩ | ⟨parts, list, distinct, owned⟩
  · rw [text]
    refine ends_pure ⟨held.weaken ?_, Still.refl state, ⟨List.nodup_singleton _, ?_⟩, ?_,
      fun _ _ => rfl, fun _ _ _ own => own⟩
    · simp only [List.mem_append, or_imp, forall_and, forall_handlesOf_list]
      exact ⟨by simpa using mine, fun other member => (kept other member).1⟩
    · intro part member
      exact List.mem_singleton.mp member ▸ alone.owned
    · exact fun part member => .inl (List.mem_singleton.mp member)
  · rw [list]
    have child : ∀ part ∈ parts, state.arena.Child id part := fun part member =>
      ⟨node, found, by rw [list]; exact member⟩
    have different : ∀ part ∈ parts, part ≠ id := by
      rintro part member rfl
      exact alone.owned.no_parent part (child part member)
    have family := held.child (alone.owned.made held mine) child
    refine (recycle_ends family (alone.owned.made held mine) alone.owned.unawaited
      (alone.owned.not_key held.sound) alone.owned.no_parent
      (handlesOf parts ++ handlesOf others) ?_ ?_).bind ?_
    · simp only [List.mem_append, or_imp, forall_and, forall_handlesOf_list]
      exact ⟨fun part member => .inl (List.mem_map_of_mem member), fun other member =>
        .inr (kept other member).1⟩
    · simp only [List.mem_append, node_mem_list]
      rintro (member | member)
      · exact different id member rfl
      · exact (kept id member).2 rfl
    · rintro _ after ⟨held, still, puts, lexer, -⟩
      have others (other : NodeId) (apart : other ≠ id) (owner : Option NodeId)
          (own : Owned state owner other) : Owned after owner other :=
        own.put puts lexer (by rintro _ ⟨⟩) fun same => absurd same apart
      refine ends_pure ⟨held, still, ⟨distinct, fun part member => ?_⟩,
        fun part member => .inr (child part member), fun _ => puts.apart, others⟩
      have own := others part (different part member) _ (owned part member)
      refine ⟨own.plain, fun parent linked => ?_, own.unawaited⟩
      cases own.parents parent linked
      obtain ⟨_, holds, -⟩ := linked
      rw [puts.at_slot] at holds
      cases holds

theorem joinString_ends {joined rest : List NodeId} {part : NodeId}
    (held : Held strict base (handlesOf (joined ++ part :: rest)) state)
    (loose : Loose state (joined ++ part :: rest)) :
    Ends (joinString joined part) state fun result after =>
      Held strict base (handlesOf (result ++ rest)) after ∧ Still state after ∧
        Loose after (result ++ rest) := by
  have reordered {result : List NodeId} (same : (result ++ rest).Perm (joined ++ part :: rest)) :
      Held strict base (handlesOf (result ++ rest)) state ∧ Still state state ∧
        Loose state (result ++ rest) := by
    refine ⟨held.weaken ?_, Still.refl state, same.nodup_iff.mpr loose.distinct, ?_⟩
    · rw [forall_handlesOf_list]
      exact fun id member => node_mem_list.mpr (same.mem_iff.mp member)
    · exact fun id member => loose.owned id (same.mem_iff.mp member)
  cases joined with
  | nil => exact ends_pure (reordered (List.Perm.refl _))
  | cons last before =>
      have swapped : ((part :: last :: before) ++ rest).Perm
          ((last :: before) ++ part :: rest) := List.perm_middle.symm
      have lastOwned := loose.owned last (by simp)
      have partOwned := loose.owned part (by simp)
      have kept := List.nodup_cons.mp (swapped.nodup_iff.mpr loose.distinct)
      refine (shapeOf_looks lastOwned.live).bind ?_
      rintro _ ⟨lastNode, lastFound, rfl⟩
      refine (shapeOf_looks partOwned.live).bind ?_
      rintro _ ⟨partNode, partFound, rfl⟩
      split
      · next bytes more lastText partText =>
          refine (spanOf_looks partOwned.live).bind fun span _ => ?_
          refine (recycle_ends held (partOwned.made held (by simp)) partOwned.unawaited
            (partOwned.not_key held.sound) partOwned.no_parent
            (handlesOf ((last :: before) ++ rest)) ?_ ?_).bind ?_
          · rw [forall_handlesOf_list]
            exact fun id member => node_mem_list.mpr
              (swapped.mem_iff.mp (List.mem_cons_of_mem _ member))
          · rw [node_mem_list]
            exact kept.1
          rintro _ given ⟨held, still, puts, lexer, -⟩
          have left : Loose given ((last :: before) ++ rest) := by
            refine ⟨kept.2, fun id member => ?_⟩
            refine (loose.owned id (swapped.mem_iff.mp (List.mem_cons_of_mem _ member))).put
              puts lexer (by rintro _ ⟨⟩) fun same => ?_
            exact absurd (same ▸ member) kept.1
          have apart : last ≠ part := fun same => kept.1 (by simp [same])
          refine (modifyText_ends held (by simp) (left.owned last (by simp))
            ((puts.apart apart).trans lastFound) rfl).bind ?_
          rintro _ shaped ⟨held, quiet, found, owned⟩
          have left : Loose shaped ((last :: before) ++ rest) :=
            ⟨kept.2, fun id member => owned id (left.owned id member)⟩
          refine (modifyText_ends held (by simp) (left.owned last (by simp)) found rfl).bind ?_
          rintro _ widened ⟨held, calm, -, owned⟩
          exact ends_pure ⟨held, (still.trans quiet).trans calm, kept.2,
            fun id member => owned id (left.owned id member)⟩
      · exact ends_pure (reordered swapped)

theorem joinAll_ends : ∀ {parts joined : List NodeId} {state : State},
    Held strict base (handlesOf (joined ++ parts)) state → Loose state (joined ++ parts) →
    Ends (parts.foldlM joinString joined) state fun result after =>
      Held strict base (handlesOf result) after ∧ Still state after ∧ Loose after result
  | [], joined, state, held, loose => by
      rw [List.append_nil] at held loose
      exact ends_pure ⟨held, Still.refl state, loose⟩
  | part :: parts, joined, state, held, loose => by
      rw [List.foldlM_cons]
      refine (joinString_ends held loose).bind ?_
      rintro result reached ⟨held, still, loose⟩
      exact (joinAll_ends held loose).mono fun _ _ joined =>
        ⟨joined.1, still.trans joined.2.1, joined.2.2⟩

/-- Two strings that belong to none are joined to one that does not either. -/
theorem joinStrings_ends {left right : NodeId}
    (held : Held strict base [.node left, .node right] state) (different : left ≠ right)
    (first : StringAlone state left) (second : StringAlone state right) :
    Ends (joinStrings left right) state fun result after =>
      Held strict base [.node result] after ∧ Still state after ∧ StringAlone after result := by
  have alone := second.owned
  refine (spanOfBoth_looks first.owned.live alone.live).bind fun span _ => ?_
  have others : ∀ other ∈ [right], Handle.node other ∈ [.node left, .node right] ∧
      other ≠ left := by simp [different.symm]
  refine (stringParts_ends held (by simp) first others).bind ?_
  rintro leftParts dissolved ⟨held, still, leftLoose, leftOrigin, leftSame, leftKept⟩
  have second : StringAlone dissolved right := by
    obtain ⟨node, found, shape⟩ := second.shape
    refine ⟨leftKept right different.symm none second.owned, node,
      (leftSame right different.symm).trans found, shape.imp_right ?_⟩
    rintro ⟨parts, list, distinct, owned⟩
    refine ⟨parts, list, distinct, fun part member => leftKept part ?_ _ (owned part member)⟩
    rintro rfl
    exact first.owned.no_parent right ⟨node, found, by rw [list]; exact member⟩
  have apart : ∀ part ∈ leftParts, part ≠ right := by
    rintro part member rfl
    rcases leftOrigin part member with same | child
    · exact different same.symm
    · exact alone.no_parent left child
  refine (stringParts_ends held (by simp) second fun part member =>
    ⟨List.mem_append_left _ (node_mem_list.mpr member), apart part member⟩).bind ?_
  rintro rightParts both ⟨held, quiet, rightLoose, rightOrigin, -, rightKept⟩
  have loose : Loose both (leftParts ++ rightParts) := by
    refine ⟨List.nodup_append.mpr ⟨leftLoose.distinct, rightLoose.distinct, ?_⟩, ?_⟩
    · rintro part member _ other rfl
      rcases rightOrigin part other with same | child
      · exact apart part member same
      · exact (leftLoose.owned part member).no_parent right child
    · intro part member
      rcases List.mem_append.mp member with old | new
      · exact rightKept part (apart part old) none (leftLoose.owned part old)
      · exact rightLoose.owned part new
  rw [← List.nil_append (leftParts ++ rightParts)] at loose
  refine (joinAll_ends (held.weaken ?_) loose).bind ?_
  · simp +contextual [or_imp]
  rintro joined reached ⟨held, calm, loose⟩
  have steady := (still.trans quiet).trans calm
  have listed : Ends (alloc (.list .string joined.reverse) span) reached
      fun result after => Held strict base [.node result] after ∧ Still state after ∧
        StringAlone after result := by
    refine (alloc_stores held (by simp) span).mono ?_
    rintro result after ⟨made, last, rooted, stored⟩
    refine ⟨made.weaken (by simp), steady.trans last, .of_stored stored held rooted (.inr ?_)⟩
    exact ⟨_, rfl, List.nodup_reverse.mpr loose.distinct, fun id member =>
      loose.owned id (List.mem_reverse.mp member)⟩
  dsimp only
  split
  · next only =>
      refine (shapeOf_looks (loose.owned only (by simp)).live).bind ?_
      rintro _ ⟨node, found, rfl⟩
      split
      · next bytes text =>
          refine (modifyText_ends held (by simp) (loose.owned only (by simp)) found text).bind ?_
          rintro _ after ⟨held, last, found, owned⟩
          exact ends_pure ⟨held.weaken (by simp), steady.trans last,
            .of_text (owned only (loose.owned only (by simp))) found text⟩
      · exact listed
  · exact listed

end Scan

end RubySyntax
