import JvmAssembler.Proofs.Code.Refinement

/-!
# Positions

Lines are in place when each lies where the ones before it end. Laying out puts them in place, and
every edit that could shift one of them marks the positions as stale, so positions that are not
stale are those of the bytecode.
-/

namespace JvmAssembler

open Rows

def Rows.byteLength (rows : Rows Instruction) : Nat := (rows.map (·.2.width)).sum

namespace Rows

theorem length_flatMap_encode (rows : Rows Instruction) :
    (rows.flatMap fun row => row.2.encode).length = rows.byteLength := by
  simp [List.length_flatMap, Instruction.length_encode, byteLength]

theorem byteLength_instructions (lines : Rows Line) :
    lines.instructions.byteLength = Body.totalWidth lines := by
  rw [byteLength, instructions, List.map_map]
  rfl

theorem slice_flatMap_encode (xs ys zs : Rows Instruction) :
    (((xs ++ (ys ++ zs)).flatMap fun row => row.2.encode).drop xs.byteLength).take ys.byteLength =
      ys.flatMap fun row => row.2.encode := by
  rw [List.flatMap_append, List.flatMap_append, List.drop_left' (length_flatMap_encode xs),
    List.take_left' (length_flatMap_encode ys)]

end Rows

namespace Body

variable {b : Body} {h : Handle} {line : Line} {xs ys lines : Rows Line} {n offset : Nat}

/-! ### Lines in place -/

/-- The first line lies at `offset`, and each of the others where the one before it ends. -/
def InPlace : (offset : Nat) → Rows Line → Prop
  | _, [] => True
  | offset, (_, line) :: rest =>
    line.position = offset ∧ InPlace (offset + line.instruction.width) rest

theorem totalWidth_cons (row : Handle × Line) (lines : Rows Line) :
    totalWidth (row :: lines) = row.2.instruction.width + totalWidth lines := rfl

theorem inPlace_append (offset : Nat) (xs ys : Rows Line) :
    InPlace offset (xs ++ ys) ↔ InPlace offset xs ∧ InPlace (offset + totalWidth xs) ys := by
  induction xs generalizing offset with
  | nil => simp [InPlace, totalWidth]
  | cons row xs ih =>
    rw [List.cons_append, InPlace, InPlace, ih, totalWidth_cons, Nat.add_assoc, and_assoc]

theorem inPlace_placed (offset : Nat) (lines : Rows Line) :
    InPlace offset (placed offset lines) := by
  induction lines generalizing offset with
  | nil => trivial
  | cons row lines ih => exact ⟨rfl, ih _⟩

theorem InPlace.replace (hp : InPlace offset (xs ++ (h, line) :: ys)) {i : Instruction}
    (hwidth : line.instruction.width = i.width) :
    InPlace offset (xs ++ (h, { line with instruction := i }) :: ys) := by
  rw [inPlace_append, InPlace] at hp ⊢
  rwa [← hwidth]

theorem place_of_inPlace {c : Chain Line}
    (hlines : ∀ row ∈ lines, ∃ before after, c.node? row.1 = some ⟨row.2, before, after⟩)
    (hp : InPlace offset lines) : place c offset lines = (offset + totalWidth lines, c) := by
  induction lines generalizing offset with
  | nil => rfl
  | cons row lines ih =>
    obtain ⟨hrow, hlines⟩ := List.forall_mem_cons.mp hlines
    obtain ⟨before, after, hnode⟩ := hrow
    obtain ⟨hposition, hp⟩ := hp
    rw [place, Chain.modifyNode_eq_self hnode (by rw [← hposition]), ih hlines hp, totalWidth_cons,
      Nat.add_assoc]

/-! ### Calls -/

/-- Unless positions are stale, the lines are in place. -/
def Settled (b : Body) : Prop := b.stale = false → InPlace 0 b.lines.toList

theorem Settled.of_lines_eq {b' : Body} (hb : b.Settled) (hlines : b'.lines = b.lines)
    (hstale : b'.stale = b.stale) : b'.Settled := by
  intro hfresh
  rw [hlines]
  exact hb (hstale ▸ hfresh)

theorem settled_of_stale (hstale : b.stale = true) : b.Settled := by
  intro hfresh
  rw [hstale] at hfresh
  cases hfresh

theorem edit_settled {α : Type} (change : Chain Line → Except Handle (α × Chain Line)) :
    Preserves Settled (edit change) := by
  intro b hb
  cases hchange : change b.lines with
  | error dead => rwa [outcome_of_error (edit_of_error hchange)]
  | ok result =>
    rw [outcome_of_ok (edit_of_ok hchange)]
    exact settled_of_stale rfl

/-- Only an instruction that is to follow itself leaves positions as they are, and it stays. -/
theorem moveAfter_settled (h : Handle) (after : Option Handle) :
    Preserves Settled (moveAfter h after) := by
  intro b hb
  cases hmove : b.lines.moveAfter h after with
  | error dead => rwa [outcome_of_error (moveAfter_of_error hmove)]
  | ok d =>
    rw [outcome_of_ok (moveAfter_of_ok hmove)]
    by_cases hself : after = some h
    · subst hself
      obtain ⟨node, hnode, -⟩ := ok_of_bind hmove
      rw [Chain.moveAfter_self hnode] at hmove
      cases hmove
      exact hb.of_lines_eq rfl (by simp)
    · exact settled_of_stale (by simp [hself])

theorem replace_settled {l : Listing} (hs : b.Shows l) (hb : b.Settled) (h : Handle)
    (i : Instruction) : (outcome (replace h i) b).2.Settled := by
  cases hmodify : b.lines.modify h fun line => { line with instruction := i } with
  | error dead =>
    have herror : replace h i b = .error (.deadHandle dead) b := by rw [replace, hmodify]
    rwa [outcome_of_error herror]
  | ok result =>
    obtain ⟨old, d⟩ := result
    have hok : replace h i b = .ok old.instruction { b with
        lines := d, stale := b.stale || old.instruction.width ≠ i.width } := by
      rw [replace, hmodify]
    rw [outcome_of_ok hok]
    by_cases hwidth : old.instruction.width = i.width
    · intro hfresh
      have hh : h ∈ l.handles := by
        by_contra hh
        rw [Chain.modify, hs.node_dead hh] at hmodify
        cases hmodify
      obtain ⟨xs, line, ys, hlines, -⟩ := hs.split hh
      obtain ⟨d', hd', hholds⟩ := hlines.modify fun line => { line with instruction := i }
      rw [hd'] at hmodify
      cases hmodify
      -- The old positions were fresh, and no line behind the instruction moves.
      have hplace := hb (by simpa [hwidth] using hfresh)
      rw [hlines.toList_eq] at hplace
      rw [hholds.toList_eq]
      exact hplace.replace hwidth
    · exact settled_of_stale (by simp [hwidth])

theorem erase_settled (h : Handle) : Preserves Settled (erase h) := by
  intro b hb
  by_cases hheld : b.contains h && b.isHeld h
  · rw [Bool.and_eq_true] at hheld
    rwa [outcome_of_error (erase_of_held hheld.1 hheld.2)]
  · have heq : outcome (erase h) b =
        outcome (Line.instruction <$> edit fun lines => lines.erase h) b := by
      rw [outcome, outcome, erase_of_free (Bool.eq_false_iff.mpr hheld)]
    rw [heq]
    exact (edit_settled _).map b hb

theorem rebind_settled (t : HolderId) (old new : Option Handle) :
    Preserves Settled (rebind t old new) := by
  intro b hb
  rcases rebind_cases t old new b with ⟨-, hok⟩ | ⟨k, -, -, herror⟩
  · rw [outcome_of_ok hok]
    exact hb.of_lines_eq rfl rfl
  · rwa [outcome_of_error herror]

/-- The body shows a listing, and its positions are right unless they are stale. -/
structure Positioned (b : Body) : Prop where
  shows : ∃ l, b.Shows l
  settled : b.Settled

theorem Positioned.empty : (∅ : Body).Positioned := ⟨⟨∅, .empty⟩, fun _ => trivial⟩

theorem Positioned.exists_holds (hb : b.Positioned) : ∃ n lines, b.lines.Holds n lines := by
  obtain ⟨l, hl⟩ := hb.shows
  obtain ⟨lines, hlines, -⟩ := hl.exists_lines
  exact ⟨l.issued, lines, hlines⟩

theorem Positioned.call (hb : b.Positioned) (c : Call) : (outcome (call c) b).2.Positioned := by
  obtain ⟨l, hl⟩ := hb.shows
  refine ⟨⟨_, (hl.call c).2⟩, ?_⟩
  cases c with
  | rebind t old new => exact (rebind_settled t old new).map b hb.settled
  | edit e =>
    cases e with
    | append i => exact (edit_settled _).map b hb.settled
    | insertBefore h i => exact (edit_settled _).map b hb.settled
    | insertAfter h i => exact (edit_settled _).map b hb.settled
    | moveAfter h after => exact (moveAfter_settled h after).map b hb.settled
    | replace h i =>
      rw [Body.call, perform, snd_outcome_map]
      exact replace_settled hl hb.settled h i
    | erase h => exact (erase_settled h).map b hb.settled
    | freshHolder => exact hb.settled.of_lines_eq rfl rfl
    | layOut =>
      obtain ⟨n, lines, hlines⟩ := hb.exists_holds
      obtain ⟨d, hlayout, hd⟩ := layOut_of_holds hlines
      have hok : Body.call (.edit .layOut) b = _ := map_of_ok _ hlayout
      rw [outcome_of_ok hok]
      intro _
      rw [hd.toList_eq]
      exact inPlace_placed 0 lines

/-! ### What positions say -/

/-- The position of an instruction is the number of bytes before it: in the bytecode its own bytes
start there, and those of the next instruction where they end. -/
structure LaidOut (b : Body) : Prop where
  at_live : ∀ h, b.contains h → ∃ before i after, b.toList = before ++ (h, i) :: after ∧
    b.instruction h = .ok i ∧ b.width h = .ok i.width ∧
    b.position h = .ok (Rows.byteLength before) ∧
    (b.bytecode.drop (Rows.byteLength before)).take i.width = i.opcode :: i.operands
  at_next : ∀ h k p w, b.next? h = some k → b.position h = .ok p → b.width h = .ok w →
    b.position k = .ok (p + w)

/-- The two bodies have the same instructions in the same order under the same handles, and the same
registrations and counters. -/
structure SameProgram (b b' : Body) : Prop where
  toList_eq : b'.toList = b.toList
  first_eq : b'.lines.first = b.lines.first
  last_eq : b'.lines.last = b.lines.last
  next?_eq : ∀ h, b'.next? h = b.next? h
  prev?_eq : ∀ h, b'.prev? h = b.prev? h
  instruction_eq : ∀ h, b'.instruction h = b.instruction h
  issued_eq : b'.lines.nodes.size = b.lines.nodes.size
  registry_eq : b'.registry = b.registry
  nextHolder_eq : b'.nextHolder = b.nextHolder

theorem Shows.sameProgram {b' : Body} {l : Listing} (hb : b.Shows l) (hb' : b'.Shows l) :
    b.SameProgram b' := by
  have hr := hb.reads
  have hr' := hb'.reads
  obtain ⟨lines, hlines, -⟩ := hb.exists_lines
  obtain ⟨lines', hlines', -⟩ := hb'.exists_lines
  constructor
  case toList_eq => rw [hr'.toList_eq, hr.toList_eq]
  case first_eq => rw [hr'.first_eq, hr.first_eq]
  case last_eq => rw [hr'.last_eq, hr.last_eq]
  case next?_eq =>
    intro h
    ext k
    rw [hr'.next?_eq_some_iff, hr.next?_eq_some_iff]
  case prev?_eq =>
    intro h
    ext k
    rw [hr'.prev?_eq_some_iff, hr.prev?_eq_some_iff]
  case instruction_eq =>
    intro h
    rw [hr'.instruction_eq, hr.instruction_eq]
  case issued_eq => rw [hlines'.issued_eq, hlines.issued_eq]
  case registry_eq => rw [hb'.registry_eq, hb.registry_eq]
  case nextHolder_eq => rw [hb'.nextHolder_eq, hb.nextHolder_eq]

theorem line_of_holds (hb : b.lines.Holds n (xs ++ (h, line) :: ys)) : b.line h = .ok line := by
  rw [Body.line, hb.node?_eq]

theorem position_of_holds (hb : b.lines.Holds n (xs ++ (h, line) :: ys))
    (hp : InPlace 0 (xs ++ (h, line) :: ys)) : b.position h = .ok (totalWidth xs) := by
  rw [inPlace_append, InPlace, Nat.zero_add] at hp
  rw [position, line_of_holds hb, ← hp.2.1]
  rfl

theorem toList_of_holds (hb : b.lines.Holds n lines) : b.toList = lines.instructions := by
  rw [toList, hb.toList_eq]
  rfl

theorem laidOut_of_holds (hb : b.lines.Holds n lines) (hp : InPlace 0 lines) : b.LaidOut := by
  constructor
  case at_live =>
    intro h hh
    obtain ⟨xs, line, ys, rfl, -⟩ := exists_split hb.nodup ((hb.contains_iff h).mp hh)
    have hlist := toList_of_holds hb
    rw [instructions_append, instructions_cons] at hlist
    refine ⟨Rows.instructions xs, line.instruction, Rows.instructions ys, hlist, ?_, ?_, ?_, ?_⟩
    · rw [instruction, line_of_holds hb]
      rfl
    · rw [width, instruction, line_of_holds hb]
      rfl
    · rw [position_of_holds hb hp, byteLength_instructions]
    · have hslice := slice_flatMap_encode (Rows.instructions xs) [(h, line.instruction)]
        (Rows.instructions ys)
      rw [bytecode, hlist]
      simpa [Rows.byteLength, Instruction.encode_eq] using hslice
  case at_next =>
    intro h k p w hnext hposition hwidth
    obtain ⟨us, vs, hsplit⟩ := hb.next?_eq_some_iff.mp hnext
    have hh : h ∈ lines.map Prod.fst := by simp [hsplit]
    obtain ⟨xs, line, ys, rfl, hx, hy⟩ := exists_split hb.nodup hh
    rw [List.map_append, List.map_cons, List.append_cons_inj_of_notMem hx hy] at hsplit
    obtain ⟨⟨k', line'⟩, rest, rfl, rfl, -⟩ := List.map_eq_cons_iff.mp hsplit.2.2
    rw [position_of_holds hb hp] at hposition
    cases hposition
    rw [width, instruction, line_of_holds hb] at hwidth
    cases hwidth
    rw [List.append_cons] at hb hp
    rw [position_of_holds hb hp]
    simp [totalWidth]

theorem Positioned.laidOut (hb : b.Positioned) (hfresh : b.stale = false) : b.LaidOut := by
  obtain ⟨n, lines, hlines⟩ := hb.exists_holds
  exact laidOut_of_holds hlines (hlines.toList_eq ▸ hb.settled hfresh)

theorem layOut_of_inPlace (hb : b.lines.Holds n lines) (hp : InPlace 0 lines) :
    layOut b = .ok (totalWidth lines) { b with stale := false } := by
  have hnodes : ∀ row ∈ lines, ∃ before after,
      b.lines.node? row.1 = some ⟨row.2, before, after⟩ := by
    intro row hrow
    obtain ⟨xs, ys, rfl⟩ := List.append_of_mem hrow
    exact ⟨_, _, hb.node?_eq⟩
  rw [layOut, hb.toList_eq, place_of_inPlace hnodes hp, Nat.zero_add]

/-- Laying out computes positions and does nothing else, and nothing at all if they are up to date.
-/
theorem Positioned.layOut (hb : b.Positioned) :
    ∃ b', layOut b = .ok b.bytecode.length b' ∧ b'.stale = false ∧ b'.LaidOut ∧
      b.SameProgram b' ∧ (b.stale = false → b' = b) := by
  obtain ⟨l, hl⟩ := hb.shows
  obtain ⟨lines, hlines, hrows⟩ := hl.exists_lines
  obtain ⟨d, hlayout, hd⟩ := layOut_of_holds hlines
  have hlength : b.bytecode.length = totalWidth lines := by
    rw [bytecode, toList_of_holds hlines, length_flatMap_encode, byteLength_instructions]
  have hshows : ({ b with lines := d, stale := false } : Body).Shows l :=
    ⟨⟨_, hd, by rw [instructions_placed, hrows]⟩, hl.registry_eq, hl.nextHolder_eq⟩
  refine ⟨_, hlength ▸ hlayout, rfl, laidOut_of_holds hd (inPlace_placed 0 lines),
    hl.sameProgram hshows, fun hfresh => ?_⟩
  have hsame := layOut_of_inPlace hlines (hlines.toList_eq ▸ hb.settled hfresh)
  rw [hlayout] at hsame
  have hbody : ({ b with stale := false } : Body) = b := by rw [← hfresh]
  exact (EStateM.Result.ok.inj hsame).2.trans hbody

theorem positioned_performAll (calls : List Call) : (performAll Body.call calls ∅).2.Positioned :=
  performAll_preserves (fun c _ hb => hb.call c) calls .empty

end Body

/-- After every session positions that are not stale are those of the bytecode. Laying out the body
then comes to an end, since following the links does, answers the length of the bytecode, and leaves
positions that are not stale; nothing else changes, and nothing at all where they were not. -/
theorem session_positions (calls : List Call) :
    let b := (performAll Body.call calls ∅).2
    (b.stale = false → b.LaidOut) ∧
      (∀ fuel, b.toList.length ≤ fuel →
        b.lines.walk Node.next fuel b.lines.first = b.lines.toList) ∧
      ∃ b', Body.layOut b = .ok b.bytecode.length b' ∧ b'.stale = false ∧ b'.LaidOut ∧
        b.SameProgram b' ∧ (b.stale = false → b' = b) := by
  intro b
  have hb : b.Positioned := Body.positioned_performAll calls
  obtain ⟨n, lines, hlines⟩ := hb.exists_holds
  refine ⟨fun hfresh => ?_, fun fuel hfuel => ?_, hb.layOut⟩
  · exact Body.laidOut_of_holds hlines (hlines.toList_eq ▸ hb.settled hfresh)
  · rw [Body.toList_of_holds hlines, Rows.instructions, List.length_map] at hfuel
    rw [hlines.first_eq, hlines.segment.walk_next hfuel, hlines.toList_eq]

end JvmAssembler
