import JvmAssembler.Proofs.Code.Layout
import JvmAssembler.Proofs.Code.Listing
import JvmAssembler.Proofs.Code.Steps

/-!
# Bodies show listings

A body and the listing that it shows answer every call alike and go on to a body and a listing of
which the same is true. Hence no session can tell the linked arena from a plain list.
-/

namespace JvmAssembler

open Rows

/-- The rows of instructions in rows of lines. -/
def Rows.instructions (lines : Rows Line) : Rows Instruction :=
  lines.map fun row => (row.1, row.2.instruction)

namespace Rows

@[simp] theorem instructions_append (xs ys : Rows Line) :
    (xs ++ ys).instructions = xs.instructions ++ ys.instructions :=
  List.map_append

@[simp] theorem instructions_cons (row : Handle × Line) (lines : Rows Line) :
    Rows.instructions (row :: lines) = (row.1, row.2.instruction) :: lines.instructions := rfl

@[simp] theorem map_fst_instructions (lines : Rows Line) :
    lines.instructions.map Prod.fst = lines.map Prod.fst := by
  simp [instructions]

end Rows

/-- The listing has the instructions of the body in the order of its links, and the same counters and
registrations. -/
structure Body.Shows (b : Body) (l : Listing) : Prop where
  exists_lines : ∃ lines, b.lines.Holds l.issued lines ∧ l.rows = lines.instructions
  registry_eq : b.registry = l.registry
  nextHolder_eq : b.nextHolder = l.nextHolder

namespace Body

variable {b : Body} {l : Listing} {h : Handle}

theorem Shows.empty : (∅ : Body).Shows ∅ :=
  ⟨⟨[], .empty, rfl⟩, rfl, rfl⟩

/-- A body with edited lines shows the listing with the rows edited the same way. -/
theorem Shows.of_holds (hs : b.Shows l) {d : Chain Line} {n : Nat} {lines : Rows Line}
    (hd : d.Holds n lines) (stale : Bool) :
    ({ b with lines := d, stale } : Body).Shows
      { l with rows := lines.instructions, issued := n } :=
  ⟨⟨lines, hd, rfl⟩, hs.registry_eq, hs.nextHolder_eq⟩

theorem Shows.split (hs : b.Shows l) (hh : h ∈ l.handles) :
    ∃ (xs : Rows Line) (line : Line) (ys : Rows Line), b.lines.Holds l.issued (xs ++ (h, line) :: ys) ∧
      l.rows = xs.instructions ++ (h, line.instruction) :: ys.instructions ∧
      h ∉ xs.instructions.map Prod.fst ∧ h ∉ ys.instructions.map Prod.fst := by
  obtain ⟨lines, hlines, hrows⟩ := hs.exists_lines
  rw [Listing.handles, hrows, map_fst_instructions] at hh
  obtain ⟨xs, line, ys, rfl, hx, hy⟩ := exists_split hlines.nodup hh
  refine ⟨xs, line, ys, hlines, by simp [hrows], ?_, ?_⟩
  · rwa [map_fst_instructions]
  · rwa [map_fst_instructions]

theorem Shows.node_dead (hs : b.Shows l) (hh : h ∉ l.handles) : b.lines.node h = .error h := by
  obtain ⟨lines, hlines, hrows⟩ := hs.exists_lines
  rw [Listing.handles, hrows, map_fst_instructions] at hh
  exact hlines.node_of_not_mem hh

theorem Shows.contains_iff (hs : b.Shows l) (h : Handle) : b.contains h ↔ h ∈ l.handles := by
  obtain ⟨lines, hlines, hrows⟩ := hs.exists_lines
  rw [Listing.handles, hrows, map_fst_instructions]
  exact hlines.contains_iff h

end Body

namespace Listing

variable {l : Listing} {h : Handle}

theorem find_dead (hh : h ∉ l.handles) : l.find h = .error (.deadHandle h) := by
  rw [find, value?_of_not_mem hh]

theorem find_split {us vs : Rows Instruction} {i : Instruction}
    (hrows : l.rows = us ++ (h, i) :: vs) (hu : h ∉ us.map Prod.fst) : l.find h = .ok i := by
  rw [find, hrows, value?_split hu]

theorem exists_find (hh : h ∈ l.handles) : ∃ i, l.find h = .ok i := by
  have hsome : (l.rows.value? h).isSome := by
    obtain ⟨row, hrow, rfl⟩ := List.mem_map.mp hh
    rw [value?, Option.isSome_map, List.find?_isSome]
    exact ⟨row, hrow, by simp⟩
  obtain ⟨i, hi⟩ := Option.isSome_iff_exists.mp hsome
  exact ⟨i, by rw [find, hi]⟩

theorem answer_moveAfter {target : Handle} {i j : Instruction} (hfind : l.find h = .ok i)
    (htarget : l.find target = .ok j) : l.answer (.edit (.moveAfter h (some target))) =
      if target = h then .ok (.done, l)
      else .ok (.done, { l with rows := (l.rows.erase h).insertAfter target (h, i) }) := by
  rw [answer, edited, hfind]
  change (l.find target >>= fun _ => _) = _
  rw [htarget]
  rfl

theorem outcome_call_of_ok {c : Call} {reply : Reply} {l' : Listing}
    (hok : l.answer c = .ok (reply, l')) : outcome (call c) l = (.ok reply, l') :=
  outcome_of_ok (by rw [call, hok])

theorem outcome_call_of_error {c : Call} {fault : Fault}
    (herror : l.answer c = .error fault) : outcome (call c) l = (.error fault, l) :=
  outcome_of_error (by rw [call, herror])

end Listing

namespace Body

variable {b : Body} {l : Listing} {h : Handle}

/-- Two outcomes with the same answer, the first of which leaves a body that shows the listing that
the second leaves. -/
def Agree (p : Except Fault Reply × Body) (q : Except Fault Reply × Listing) : Prop :=
  p.1 = q.1 ∧ p.2.Shows q.2

theorem Shows.agree_error (hs : b.Shows l) {c : Call} (fault : Fault)
    (hbody : call c b = .error fault b) (hlisting : l.answer c = .error fault) :
    Agree (outcome (Body.call c) b) (outcome (Listing.call c) l) := by
  rw [outcome_of_error hbody, Listing.outcome_call_of_error hlisting]
  exact ⟨rfl, hs⟩

theorem Shows.agree_ok (hs : b.Shows l) {c : Call} (reply : Reply) (stale : Bool)
    {d : Chain Line} {n : Nat} {lines : Rows Line} (hd : d.Holds n lines)
    (hbody : call c b = .ok reply { b with lines := d, stale })
    (hlisting : l.answer c = .ok (reply, { l with rows := lines.instructions, issued := n })) :
    Agree (outcome (Body.call c) b) (outcome (Listing.call c) l) := by
  rw [outcome_of_ok hbody, Listing.outcome_call_of_ok hlisting]
  exact ⟨rfl, hs.of_holds hd stale⟩

theorem instructions_placed (offset : Nat) (lines : Rows Line) :
    (placed offset lines).instructions = lines.instructions := by
  induction lines generalizing offset with
  | nil => rfl
  | cons row lines ih =>
    rw [placed, instructions_cons, instructions_cons, ih]

theorem Shows.append (hs : b.Shows l) (i : Instruction) :
    Agree (outcome (call (.edit (.append i))) b) (outcome (Listing.call (.edit (.append i))) l) := by
  obtain ⟨lines, hlines, hrows⟩ := hs.exists_lines
  obtain ⟨d, hchain, hd⟩ := hlines.append ⟨i, 0⟩
  refine hs.agree_ok (.handle ⟨l.issued⟩) true hd ?_ ?_
  · exact map_of_ok _ (edit_of_ok (congrArg Except.ok hchain))
  · rw [Listing.answer, Listing.edited, hrows, instructions_append]
    rfl

theorem Shows.insertBefore (hs : b.Shows l) (h : Handle) (i : Instruction) :
    Agree (outcome (call (.edit (.insertBefore h i))) b)
      (outcome (Listing.call (.edit (.insertBefore h i))) l) := by
  by_cases hh : h ∈ l.handles
  · obtain ⟨xs, line, ys, hlines, hrows, hx, hy⟩ := hs.split hh
    obtain ⟨d, hchain, hd⟩ := hlines.insertBefore ⟨i, 0⟩
    refine hs.agree_ok (.handle ⟨l.issued⟩) true hd ?_ ?_
    · exact map_of_ok _ (edit_of_ok hchain)
    · rw [Listing.answer, Listing.edited, Listing.find_split hrows hx, hrows, insertBefore_split hx,
        instructions_append]
      rfl
  · refine hs.agree_error (.deadHandle h) ?_ ?_
    · refine map_of_error _ (edit_of_error ?_)
      rw [Chain.insertBefore, hs.node_dead hh]
      rfl
    · rw [Listing.answer, Listing.edited, Listing.find_dead hh]
      rfl

theorem Shows.insertAfter (hs : b.Shows l) (h : Handle) (i : Instruction) :
    Agree (outcome (call (.edit (.insertAfter h i))) b)
      (outcome (Listing.call (.edit (.insertAfter h i))) l) := by
  by_cases hh : h ∈ l.handles
  · obtain ⟨xs, line, ys, hlines, hrows, hx, hy⟩ := hs.split hh
    obtain ⟨d, hchain, hd⟩ := hlines.insertAfter ⟨i, 0⟩
    refine hs.agree_ok (.handle ⟨l.issued⟩) true hd ?_ ?_
    · exact map_of_ok _ (edit_of_ok hchain)
    · rw [Listing.answer, Listing.edited, Listing.find_split hrows hx, hrows, insertAfter_split hx,
        instructions_append]
      rfl
  · refine hs.agree_error (.deadHandle h) ?_ ?_
    · refine map_of_error _ (edit_of_error ?_)
      rw [Chain.insertAfter, hs.node_dead hh]
      rfl
    · rw [Listing.answer, Listing.edited, Listing.find_dead hh]
      rfl

theorem Shows.replace (hs : b.Shows l) (h : Handle) (i : Instruction) :
    Agree (outcome (call (.edit (.replace h i))) b) (outcome (Listing.call (.edit (.replace h i))) l) := by
  by_cases hh : h ∈ l.handles
  · obtain ⟨xs, line, ys, hlines, hrows, hx, hy⟩ := hs.split hh
    obtain ⟨d, hchain, hd⟩ := hlines.modify fun line => { line with instruction := i }
    refine hs.agree_ok (.instruction line.instruction)
      (b.stale || line.instruction.width ≠ i.width) hd ?_ ?_
    · apply map_of_ok Reply.instruction
      rw [Body.replace, hchain]
    · rw [Listing.answer, Listing.edited, Listing.find_split hrows hx, hrows, replace_split hx hy,
        instructions_append]
      rfl
  · refine hs.agree_error (.deadHandle h) ?_ ?_
    · apply map_of_error _
      have hdead : (b.lines.modify h fun line => { line with instruction := i }) = .error h := by
        rw [Chain.modify, hs.node_dead hh]
        rfl
      rw [Body.replace, hdead]
    · rw [Listing.answer, Listing.edited, Listing.find_dead hh]
      rfl

theorem Shows.moveAfter_none (hs : b.Shows l) (hh : h ∈ l.handles) :
    Agree (outcome (call (.edit (.moveAfter h none))) b)
      (outcome (Listing.call (.edit (.moveAfter h none))) l) := by
  obtain ⟨xs, line, ys, hlines, hrows, hx, hy⟩ := hs.split hh
  obtain ⟨d, hchain, hd⟩ := hlines.moveAfter_none
  refine hs.agree_ok .done (b.stale || none ≠ some h) hd ?_ ?_
  · exact map_of_ok _ (moveAfter_of_ok hchain)
  · rw [Listing.answer, Listing.edited, Listing.find_split hrows hx, hrows, erase_split hx hy,
      ← instructions_append]
    rfl

theorem Shows.moveAfter_self (hs : b.Shows l) (hh : h ∈ l.handles) :
    Agree (outcome (call (.edit (.moveAfter h (some h)))) b)
      (outcome (Listing.call (.edit (.moveAfter h (some h)))) l) := by
  obtain ⟨xs, line, ys, hlines, hrows, hx, -⟩ := hs.split hh
  have hfind := Listing.find_split hrows hx
  have hsame : { l with rows := (xs ++ (h, line) :: ys).instructions } = l := by
    rw [instructions_append, instructions_cons, ← hrows]
  refine hs.agree_ok .done (b.stale || some h ≠ some h) hlines ?_ ?_
  · exact map_of_ok _ (moveAfter_of_ok (Chain.moveAfter_self hlines.node_split))
  · rw [hsame, Listing.answer_moveAfter hfind hfind, if_pos rfl]

/-- The row of the target is looked for among the rows that are left once `h` has been taken out. -/
theorem Shows.moveAfter_other (hs : b.Shows l) (hh : h ∈ l.handles) {target : Handle}
    (htarget : target ∈ l.handles) (hne : target ≠ h) :
    Agree (outcome (call (.edit (.moveAfter h (some target)))) b)
      (outcome (Listing.call (.edit (.moveAfter h (some target)))) l) := by
  obtain ⟨xs, line, ys, hlines, hrows, hx, hy⟩ := hs.split hh
  obtain ⟨j, hother⟩ := Listing.exists_find htarget
  have hmem : target ∈ (xs ++ ys).map Prod.fst := by
    rw [Listing.handles, hrows] at htarget
    simpa [hne] using htarget
  have hnd : ((xs ++ ys).map Prod.fst).Nodup := (hlines.unlink hlines.node?_eq).1.nodup
  obtain ⟨us, other, vs, hsplit, hu, -⟩ := exists_split hnd hmem
  obtain ⟨d, hchain, hd⟩ := hlines.moveAfter_some hsplit
  refine hs.agree_ok .done (b.stale || some target ≠ some h) hd ?_ ?_
  · exact map_of_ok _ (moveAfter_of_ok hchain)
  · rw [← map_fst_instructions] at hu
    rw [Listing.answer_moveAfter (Listing.find_split hrows hx) hother, if_neg hne, hrows,
      erase_split hx hy, ← instructions_append, hsplit, instructions_append, instructions_cons,
      insertAfter_split hu, instructions_append]
    rfl

theorem Shows.moveAfter_dead (hs : b.Shows l) (hh : h ∈ l.handles) {target : Handle}
    (htarget : target ∉ l.handles) :
    Agree (outcome (call (.edit (.moveAfter h (some target)))) b)
      (outcome (Listing.call (.edit (.moveAfter h (some target)))) l) := by
  obtain ⟨xs, line, ys, hlines, hrows, hx, -⟩ := hs.split hh
  have hne : target ≠ h := by
    intro heq
    exact htarget (heq ▸ hh)
  refine hs.agree_error (.deadHandle target) ?_ ?_
  · refine map_of_error _ (moveAfter_of_error ?_)
    exact Chain.moveAfter_dead hne hlines.node_split (hs.node_dead htarget)
  · rw [Listing.answer, Listing.edited, Listing.find_split hrows hx]
    change (l.find target >>= fun _ => _) = _
    rw [Listing.find_dead htarget]
    rfl

theorem Shows.moveAfter (hs : b.Shows l) (h : Handle) (after : Option Handle) :
    Agree (outcome (call (.edit (.moveAfter h after))) b)
      (outcome (Listing.call (.edit (.moveAfter h after))) l) := by
  by_cases hh : h ∈ l.handles
  · cases after with
    | none => exact hs.moveAfter_none hh
    | some target =>
      by_cases hself : target = h
      · subst hself
        exact hs.moveAfter_self hh
      by_cases htarget : target ∈ l.handles
      · exact hs.moveAfter_other hh htarget hself
      · exact hs.moveAfter_dead hh htarget
  · refine hs.agree_error (.deadHandle h) ?_ ?_
    · refine map_of_error _ (moveAfter_of_error ?_)
      rw [Chain.moveAfter, hs.node_dead hh]
      rfl
    · rw [Listing.answer, Listing.edited, Listing.find_dead hh]
      rfl

theorem Shows.erase (hs : b.Shows l) (h : Handle) :
    Agree (outcome (call (.edit (.erase h))) b) (outcome (Listing.call (.edit (.erase h))) l) := by
  by_cases hh : h ∈ l.handles
  · obtain ⟨xs, line, ys, hlines, hrows, hx, hy⟩ := hs.split hh
    have hlive := (hs.contains_iff h).mpr hh
    have hfind := Listing.find_split hrows hx
    by_cases hheld : l.registry.isHeld h
    · have hheld' : b.isHeld h := by rw [isHeld, hs.registry_eq, hheld]
      refine hs.agree_error _ (map_of_error _ (erase_of_held hlive hheld')) ?_
      rw [Listing.answer, Listing.edited, hfind, holders, hs.registry_eq]
      change (if _ then _ else _) = _
      rw [if_pos hheld]
      rfl
    · obtain ⟨d, hchain, hd⟩ := hlines.erase
      refine hs.agree_ok (.instruction line.instruction) true hd ?_ ?_
      · apply map_of_ok _
        rw [erase_of_free (by rw [isHeld, hs.registry_eq]; simp [hheld])]
        exact map_of_ok _ (edit_of_ok hchain)
      · rw [Listing.answer, Listing.edited, hfind, hrows, erase_split hx hy, instructions_append]
        change (if _ then _ else _) = _
        rw [if_neg hheld]
        rfl
  · have hdead : b.contains h = false := Bool.eq_false_iff.mpr (mt (hs.contains_iff h).mp hh)
    refine hs.agree_error (.deadHandle h) (map_of_error _ (erase_of_dead hdead)) ?_
    rw [Listing.answer, Listing.edited, Listing.find_dead hh]
    rfl

theorem Shows.rebind (hs : b.Shows l) (t : HolderId) (old new : Option Handle) :
    Agree (outcome (call (.rebind t old new)) b)
      (outcome (Listing.call (.rebind t old new)) l) := by
  rcases rebind_cases t old new b with ⟨hlive, hok⟩ | ⟨h, rfl, hdead, herror⟩
  · have hlisting : l.answer (.rebind t old new) =
        .ok (.done, { l with registry := rebound l.registry t old new }) := by
      rcases new with _ | h
      · rfl
      · obtain ⟨i, hi⟩ := Listing.exists_find ((hs.contains_iff h).mp (hlive h rfl))
        rw [Listing.answer, hi]
        rfl
    have hbody : call (.rebind t old new) b = _ := map_of_ok _ hok
    rw [outcome_of_ok hbody, Listing.outcome_call_of_ok hlisting, hs.registry_eq]
    exact ⟨rfl, hs.exists_lines, rfl, hs.nextHolder_eq⟩
  · have hh : h ∉ l.handles := mt (hs.contains_iff h).mpr (Bool.eq_false_iff.mp hdead)
    refine hs.agree_error _ (map_of_error _ herror) ?_
    rw [Listing.answer, Listing.find_dead hh]
    rfl

theorem Shows.freshHolder (hs : b.Shows l) :
    Agree (outcome (call (.edit .freshHolder)) b) (outcome (Listing.call (.edit .freshHolder)) l) := by
  refine ⟨congrArg (fun n => Except.ok (Reply.holder ⟨n⟩)) hs.nextHolder_eq, hs.exists_lines,
    hs.registry_eq, congrArg (· + 1) hs.nextHolder_eq⟩

theorem Shows.layOut (hs : b.Shows l) :
    Agree (outcome (call (.edit .layOut)) b) (outcome (Listing.call (.edit .layOut)) l) := by
  obtain ⟨lines, hlines, hrows⟩ := hs.exists_lines
  obtain ⟨d, hlayout, hd⟩ := layOut_of_holds hlines
  have hsame : { l with rows := (placed 0 lines).instructions, issued := l.issued } = l := by
    rw [instructions_placed, ← hrows]
  refine hs.agree_ok (.length (totalWidth lines)) false hd (map_of_ok _ hlayout) ?_
  rw [hsame, Listing.answer, Listing.edited, hrows, totalWidth, Rows.instructions, List.map_map]
  rfl

theorem Shows.call (hs : b.Shows l) (c : Call) :
    Agree (outcome (Body.call c) b) (outcome (Listing.call c) l) := by
  cases c with
  | rebind t old new => exact hs.rebind t old new
  | edit e =>
    cases e with
    | append i => exact hs.append i
    | insertBefore h i => exact hs.insertBefore h i
    | insertAfter h i => exact hs.insertAfter h i
    | moveAfter h after => exact hs.moveAfter h after
    | replace h i => exact hs.replace h i
    | erase h => exact hs.erase h
    | freshHolder => exact hs.freshHolder
    | layOut => exact hs.layOut

theorem Shows.edited_of_ok (hs : b.Shows l) {e : Edit} {reply : Reply} {b' : Body}
    (hok : perform e b = .ok reply b') : ∃ l', l.edited e = .ok (reply, l') ∧ b'.Shows l' := by
  obtain ⟨hanswer, hshows⟩ := hs.call (.edit e)
  have hcall : outcome (Body.call (.edit e)) b = (.ok reply, b') := outcome_of_ok hok
  rw [hcall] at hanswer hshows
  cases hedited : l.edited e with
  | error fault =>
    rw [Listing.outcome_call_of_error (c := .edit e) hedited] at hanswer
    cases hanswer
  | ok result =>
    rw [Listing.outcome_call_of_ok (c := .edit e) hedited] at hanswer hshows
    cases hanswer
    exact ⟨result.2, rfl, hshows⟩

/-- A session leaves a body that shows what the same session makes of the listing without instructions. -/
theorem shows_performAll (calls : List Call) :
    (performAll Body.call calls ∅).2.Shows (performAll Listing.call calls ∅).2 :=
  (performAll_simulates (R := Body.Shows) (fun c _ _ hs => hs.call c) calls Body.Shows.empty).2

/-! ### What a body shows -/

/-- Everything that can be read off the order of a body is read off the rows of the listing. The walks
say that following the links ends by itself: more fuel does not make it longer. -/
structure Reads (b : Body) (l : Listing) : Prop where
  nodup : l.handles.Nodup
  toList_eq : b.toList = l.rows
  walk_next : ∀ fuel, l.rows.length ≤ fuel →
    Rows.instructions (b.lines.walk Node.next fuel b.lines.first) = l.rows
  walk_prev : ∀ fuel, l.rows.length ≤ fuel →
    Rows.instructions (b.lines.walk Node.prev fuel b.lines.last) = l.rows.reverse
  size_eq : b.lines.size = l.rows.length
  first_eq : b.lines.first = l.handles.head?
  last_eq : b.lines.last = l.handles.getLast?
  contains_iff : ∀ h, b.contains h ↔ h ∈ l.handles
  instruction_eq : ∀ h, b.instruction h = l.find h
  next?_eq_some_iff : ∀ h k, b.next? h = some k ↔
    ∃ before after, l.handles = before ++ h :: k :: after
  prev?_eq_some_iff : ∀ h k, b.prev? h = some k ↔
    ∃ before after, l.handles = before ++ k :: h :: after

theorem Shows.instruction_eq (hs : b.Shows l) (h : Handle) : b.instruction h = l.find h := by
  by_cases hh : h ∈ l.handles
  · obtain ⟨xs, line, ys, hlines, hrows, hx, -⟩ := hs.split hh
    rw [Listing.find_split hrows hx, instruction, Body.line, hlines.node?_eq]
    rfl
  · have hdead : b.contains h = false := Bool.eq_false_iff.mpr (mt (hs.contains_iff h).mp hh)
    rw [Listing.find_dead hh, instruction_of_dead hdead]

theorem Shows.reads (hs : b.Shows l) : b.Reads l := by
  obtain ⟨lines, hlines, hrows⟩ := hs.exists_lines
  have hhandles : l.handles = lines.map Prod.fst := by
    rw [Listing.handles, hrows, map_fst_instructions]
  have hlength : l.rows.length = lines.length := by
    rw [hrows, instructions, List.length_map]
  constructor
  case nodup => exact hhandles ▸ hlines.nodup
  case toList_eq => rw [toList, hlines.toList_eq, hrows]; rfl
  case walk_next =>
    intro fuel hfuel
    rw [hlines.first_eq, hlines.segment.walk_next (hlength ▸ hfuel), hrows]
  case walk_prev =>
    intro fuel hfuel
    rw [hlines.last_eq, hlines.segment.walk_prev (hlength ▸ hfuel), hrows, instructions,
      List.map_reverse]
    rfl
  case size_eq => rw [hlines.size_eq, hlength]
  case first_eq => rw [hlines.first_eq, hhandles, List.head?_map]; rfl
  case last_eq => rw [hlines.last_eq, hhandles, List.getLast?_map]; rfl
  case contains_iff => exact hs.contains_iff
  case instruction_eq => exact hs.instruction_eq
  case next?_eq_some_iff =>
    intro h k
    rw [hhandles]
    exact hlines.next?_eq_some_iff
  case prev?_eq_some_iff =>
    intro h k
    rw [hhandles]
    exact hlines.prev?_eq_some_iff

end Body

/-! ### New handles -/

/-- The handles among the answers to a session, all of which are new ones. -/
def newHandles (answers : List (Except Fault Reply)) : List Handle :=
  answers.filterMap fun
    | .ok (.handle h) => some h
    | _ => none

namespace Listing

variable {l l' : Listing}

/-- A call that answers a handle answers the next one, and no other call uses it up. -/
theorem issued_of_answer {c : Call} {reply : Reply} (hok : l.answer c = .ok (reply, l')) :
    (reply = .handle ⟨l.issued⟩ ∧ l'.issued = l.issued + 1) ∨
      ((∀ h, reply ≠ .handle h) ∧ l'.issued = l.issued) := by
  cases c with
  | edit e =>
    cases e with
    | append i =>
      cases hok
      exact .inl ⟨rfl, rfl⟩
    | insertBefore h i =>
      obtain ⟨_, -, hok⟩ := ok_of_bind hok
      cases hok
      exact .inl ⟨rfl, rfl⟩
    | insertAfter h i =>
      obtain ⟨_, -, hok⟩ := ok_of_bind hok
      cases hok
      exact .inl ⟨rfl, rfl⟩
    | moveAfter h after =>
      obtain ⟨_, -, hok⟩ := ok_of_bind hok
      rcases after with _ | target
      · cases hok
        exact .inr ⟨nofun, rfl⟩
      · obtain ⟨_, -, hok⟩ := ok_of_bind hok
        split at hok <;> cases hok <;> exact .inr ⟨nofun, rfl⟩
    | replace h i =>
      obtain ⟨_, -, hok⟩ := ok_of_bind hok
      cases hok
      exact .inr ⟨nofun, rfl⟩
    | erase h =>
      obtain ⟨_, -, hok⟩ := ok_of_bind hok
      split at hok <;> cases hok
      exact .inr ⟨nofun, rfl⟩
    | freshHolder =>
      cases hok
      exact .inr ⟨nofun, rfl⟩
    | layOut =>
      cases hok
      exact .inr ⟨nofun, rfl⟩
  | rebind t old new =>
    rcases new with _ | k
    · cases hok
      exact .inr ⟨nofun, rfl⟩
    · obtain ⟨_, -, hok⟩ := ok_of_bind hok
      cases hok
      exact .inr ⟨nofun, rfl⟩

theorem range_issued_append (c : Call) (l : Listing) :
    (List.range l.issued).map Handle.mk ++ newHandles [(outcome (call c) l).1] =
      (List.range (outcome (call c) l).2.issued).map Handle.mk := by
  cases hanswer : l.answer c with
  | error fault =>
    rw [outcome_call_of_error hanswer]
    exact List.append_nil _
  | ok result =>
    obtain ⟨reply, l'⟩ := result
    rw [outcome_call_of_ok hanswer]
    rcases issued_of_answer hanswer with ⟨rfl, hissued⟩ | ⟨hreply, hissued⟩
    · rw [hissued, List.range_succ, List.map_append]
      rfl
    · have hnone : newHandles [.ok reply] = [] := by
        cases reply with
        | handle h => exact absurd rfl (hreply h)
        | _ => rfl
      rw [hnone, hissued, List.append_nil]

/-- The handles that a session answers go on counting where the listing was. -/
theorem range_issued_performAll (calls : List Call) (l : Listing) :
    (List.range l.issued).map Handle.mk ++ newHandles (performAll call calls l).1 =
      (List.range (performAll call calls l).2.issued).map Handle.mk := by
  induction calls generalizing l with
  | nil => exact List.append_nil _
  | cons c calls ih =>
    have hcons (answer : Except Fault Reply) (answers : List (Except Fault Reply)) :
        newHandles (answer :: answers) = newHandles [answer] ++ newHandles answers := by
      rw [newHandles, ← List.singleton_append, List.filterMap_append]
      rfl
    rw [performAll_cons, hcons, ← List.append_assoc, range_issued_append, ih]

end Listing

/-- A session on a new body answers what the same session on an empty listing answers, and leaves a
body from which nothing else can be read than the rows of that listing. The handles given out on the
way are `0`, `1`, `2` and so on, hence all different. -/
theorem session_reads_listing (calls : List Call) :
    (performAll Body.call calls ∅).1 = (performAll Listing.call calls ∅).1 ∧
      (performAll Body.call calls ∅).2.Reads (performAll Listing.call calls ∅).2 ∧
      newHandles (performAll Body.call calls ∅).1 =
        (List.range (performAll Listing.call calls ∅).2.issued).map Handle.mk := by
  obtain ⟨hanswers, hshows⟩ := performAll_simulates (R := Body.Shows)
    (fun c _ _ hs => hs.call c) calls Body.Shows.empty
  refine ⟨hanswers, hshows.reads, ?_⟩
  rw [hanswers]
  exact Listing.range_issued_performAll calls ∅

end JvmAssembler
