import JvmAssembler.Proofs.Code.Reroute
import JvmAssembler.Proofs.Code.Resolution
import JvmAssembler.Workbench

/-!
# Accounts of a workbench

Everything that can be done on a workbench with the method, its variables and handlers, and loose
ones beside it. Whatever is done in whatever order, and whether it succeeds or not, the
registrations are exactly what the variables and handlers themselves say that they point at. Since
nothing can fail any more once something has been changed, what fails has changed nothing.
-/

namespace JvmAssembler

/-- What a local variable can be told. -/
inductive LocalEdit
  | setStart (start : Option Handle)
  | setStop (stop : Option Handle)
  | setSlot (slot : Int)
  | setName (name : UnqualifiedName)
  | setType (type : FieldType)
  | substitute (old new : Handle)
  | release

def LocalEdit.apply : LocalEdit → LocalVar → BodyM LocalVar
  | .setStart start => LocalVar.setStart start
  | .setStop stop => LocalVar.setStop stop
  | .setSlot slot => LocalVar.setSlot slot
  | .setName name => LocalVar.setName name
  | .setType type => LocalVar.setType type
  | .substitute old new => LocalVar.substitute old new
  | .release => LocalVar.release

/-- What an exception handler can be told. -/
inductive CatchEdit
  | setFirst (first : Handle)
  | setLast (last : Handle)
  | setHandler (handler : Handle)
  | setCaught (caught : Option BinaryName)
  | substitute (old new : Handle)

def CatchEdit.apply : CatchEdit → CatchRange → BodyM CatchRange
  | .setFirst first => CatchRange.setFirst first
  | .setLast last => CatchRange.setLast last
  | .setHandler handler => CatchRange.setHandler handler
  | .setCaught caught => CatchRange.setCaught caught
  | .substitute old new => CatchRange.substitute old new

theorem LocalEdit.careful (e : LocalEdit) : Careful LocalVar.holding e.apply := by
  cases e with
  | setStart start => exact LocalVar.careful_setStart start
  | setStop stop => exact LocalVar.careful_setStop stop
  | setSlot slot => exact LocalVar.careful_setSlot slot
  | setName name => exact LocalVar.careful_setName name
  | setType type => exact LocalVar.careful_setType type
  | substitute old new => exact LocalVar.careful_substitute old new
  | release => exact LocalVar.careful_release

theorem CatchEdit.careful (e : CatchEdit) : Careful CatchRange.holding e.apply := by
  cases e with
  | setFirst first => exact CatchRange.careful_setFirst first
  | setLast last => exact CatchRange.careful_setLast last
  | setHandler handler => exact CatchRange.careful_setHandler handler
  | setCaught caught => exact CatchRange.careful_setCaught caught
  | substitute old new => exact CatchRange.careful_substitute old new

namespace Workbench

/-- What can be done with a method and with what points into it. Loose variables and handlers are
released when they are dropped. -/
inductive Action
  | edit (e : Edit)
  | addLocal (place : Place) (slot : Int) (name : UnqualifiedName) (type : FieldType)
      (start stop : Option Handle)
  | duplicateLocal (place : Place) (t : HolderId)
  | editLocal (place : Place) (t : HolderId) (e : LocalEdit)
  | removeLocal (t : HolderId)
  | dropLocal (t : HolderId)
  | addCatch (place : Place) (first last handler : Handle) (caught : Option BinaryName)
  | editCatch (t : HolderId) (e : CatchEdit)
  | removeCatch (t : HolderId)
  | dropCatch (t : HolderId)
  | reroute (old new : Handle)
  | removeInstruction (h : Handle)

/-- Does it. A variable that the method gives up is loose from then on. -/
def perform : Action → WorkM Unit
  | .edit e => (fun _ => ()) <$> onBody (Body.perform e)
  | .addLocal place slot name type start stop =>
    (fun _ => ()) <$> addLocal place slot name type start stop
  | .duplicateLocal place t => (fun _ => ()) <$> duplicateLocal place t
  | .editLocal place t e => editLocal place t e.apply
  | .removeLocal t => do
    let v ← onMethod (Method.removeLocal t)
    modify fun w => { w with looseLocals := w.looseLocals ++ [v] }
  | .dropLocal t => do
    let v ← getLocalIn .loose t
    modify fun w => { w with looseLocals := w.looseLocals.filter (·.id ≠ t) }
    (fun _ => ()) <$> onBody v.release
  | .addCatch place first last handler caught =>
    (fun _ => ()) <$> addCatch place first last handler caught
  | .editCatch t e => editLooseCatch t e.apply
  | .removeCatch t => onMethod (Method.removeCatch t)
  | .dropCatch t => dropLooseCatch t
  | .reroute old new => onMethod (Method.reroute old new)
  | .removeInstruction h => (fun _ => ()) <$> onMethod (Method.removeInstruction h)

def loose (w : Workbench) : Holdings :=
  w.looseLocals.map LocalVar.holding ++ w.looseCatches.map CatchRange.holding

def holdings (w : Workbench) : Holdings := w.method.holdings ++ w.loose

/-- The registrations are those of the variables and handlers, and what these point at is there. -/
structure Accounted (w : Workbench) : Prop where
  nodup : (w.holdings.map Prod.fst).Nodup
  count_eq : ∀ t hs, (t, hs) ∈ w.holdings → ∀ h, w.method.body.registry.count h t = hs.count h
  entry : ∀ h held, w.method.body.registry.counts[h]? = some held → held ≠ ∅ ∧
    ∀ (t : HolderId) (n : Nat), held[t]? = some n →
      0 < n ∧ ∃ hs, (t, hs) ∈ w.holdings ∧ n = hs.count h
  live : ∀ t hs, (t, hs) ∈ w.holdings → ∀ h ∈ hs, w.method.body.contains h
  resolve_local : ∀ v ∈ w.method.locals ++ w.looseLocals,
    FaultsAre (fun e => ∀ h, e ≠ .deadHandle h) (v.emit w.method.body)
  resolve_catch : ∀ r ∈ w.method.catches ++ w.looseCatches,
    FaultsAre (fun e => ∀ h, e ≠ .deadHandle h) (r.emit w.method.body)

variable {α : Type} {w : Workbench} {t : HolderId}

def Tracks (w : Workbench) : Prop := w.method.Tracks w.loose

theorem Tracks.accounted (hw : w.Tracks) : w.Accounted := by
  have hcount (t : HolderId) (hs : List Handle) (hmem : (t, hs) ∈ w.holdings) (h : Handle) :
      w.method.body.registry.count h t = hs.count h := by
    rw [hw.count_eq h t, Holdings.tally_of_mem hw.nodup hmem]
  have hlive (t : HolderId) (hs : List Handle) (hmem : (t, hs) ∈ w.holdings) :
      ∀ h ∈ hs, w.method.body.contains h := hw.live (t, hs) hmem
  constructor
  case nodup => exact hw.nodup
  case count_eq => exact hcount
  case live => exact hlive
  case entry =>
    intro h held hheld
    obtain ⟨hne, hpos⟩ := hw.tight h held hheld
    refine ⟨hne, fun t n hn => ?_⟩
    have hn' : w.method.body.registry.count h t = n := by
      rw [Registry.count, hheld, Option.bind_some, hn, Option.getD_some]
    have hn₀ := hpos t n hn
    obtain ⟨hs, hmem, -⟩ := hw.count_ne_zero_iff.mp (hn'.symm ▸ hn₀)
    exact ⟨Nat.pos_of_ne_zero hn₀, hs, hmem, by rw [← hn', hcount t hs hmem]⟩
  case resolve_local =>
    intro v hv
    refine LocalVar.emit_alive (hlive v.id v.held ?_)
    rcases List.mem_append.mp hv with hv | hv
    · exact List.mem_append_left _ (List.mem_append_left _ (List.mem_map_of_mem hv))
    · exact List.mem_append_right _ (List.mem_append_left _ (List.mem_map_of_mem hv))
  case resolve_catch =>
    intro r hr
    refine CatchRange.emit_alive (hlive r.id r.held ?_)
    rcases List.mem_append.mp hr with hr | hr
    · exact List.mem_append_left _ (List.mem_append_right _ (List.mem_map_of_mem hr))
    · exact List.mem_append_right _ (List.mem_append_right _ (List.mem_map_of_mem hr))

/-! ### On the method -/

theorem atomically_onMethod {act : MethodM α} {Q : α → Method → Prop}
    (hact : Atomically act w.method Q) :
    Atomically (onMethod act) w fun x w' => ∃ m, w' = { w with method := m } ∧ Q x m := by
  rcases hact with ⟨e, herror⟩ | ⟨x, m, hok, hQ⟩
  · exact .inl ⟨e, by rw [onMethod, herror]⟩
  · exact .inr ⟨x, { w with method := m }, by rw [onMethod, hok], m, rfl, hQ⟩

theorem onMethod_tracks {act : MethodM α}
    (hact : Atomically act w.method fun _ m => m.Tracks w.loose) :
    Atomically (onMethod act) w fun _ w' => w'.Tracks := by
  apply (atomically_onMethod hact).mono
  intro x _ hstep
  obtain ⟨m, rfl, hm⟩ := hstep
  exact hm

theorem atomically_onBody {act : BodyM α} {Q : α → Body → Prop}
    (hact : Atomically act w.method.body Q) :
    Atomically (onBody act) w fun x w' =>
      ∃ b, w' = { w with method := { w.method with body := b } } ∧ Q x b := by
  apply (atomically_onMethod (Method.atomically_onBody hact)).mono
  intro x _ hstep
  obtain ⟨_, rfl, b, rfl, hb⟩ := hstep
  exact ⟨b, rfl, hb⟩

/-! ### Beside the method -/

theorem Tracks.nodup_looseLocals (hw : w.Tracks) : (w.looseLocals.map LocalVar.id).Nodup := by
  have hnd := hw.nodup
  rw [loose, List.map_append, List.map_append, List.map_map] at hnd
  exact hnd.of_append_right.of_append_left

theorem Tracks.nodup_looseCatches (hw : w.Tracks) : (w.looseCatches.map CatchRange.id).Nodup := by
  have hnd := hw.nodup
  rw [loose, List.map_append, List.map_append] at hnd
  have hcatches := hnd.of_append_right.of_append_right
  rwa [List.map_map] at hcatches

theorem Tracks.looseLocal_split (hw : w.Tracks) {x : LocalVar}
    (hx : w.localIn? .loose t = some x) :
    ∃ rest, w.method.body.Tracks (x.holding :: rest) ∧
      (∀ y b, b.Tracks (y.holding :: rest) →
        Tracks { w with
          method := { w.method with body := b }
          looseLocals := w.looseLocals.map fun v => if v.id = t then y else v }) ∧
      ∀ b, b.Tracks rest →
        Tracks { w with
          method := { w.method with body := b }
          looseLocals := w.looseLocals.filter fun v => v.id ≠ t } := by
  obtain ⟨-, us, vs, hxs, hfilter, hmap⟩ := exists_keyed_split hw.nodup_looseLocals hx
  refine ⟨w.method.holdings ++ (us.map LocalVar.holding ++ (vs.map LocalVar.holding ++
    w.looseCatches.map CatchRange.holding)), hw.perm ?_, fun y b hb => hb.perm ?_,
    fun b hb => hb.perm ?_⟩
  · rw [loose, hxs]
    simpa using perm_middle_append ..
  · change List.Perm _ (w.method.holdings ++ ((w.looseLocals.map _).map LocalVar.holding ++ _))
    rw [hmap]
    simpa using (perm_middle_append ..).symm
  · change List.Perm _ (w.method.holdings ++ ((w.looseLocals.filter _).map LocalVar.holding ++ _))
    rw [hfilter]
    simp

theorem Tracks.looseCatch_split (hw : w.Tracks) {x : CatchRange} (hx : w.looseCatch? t = some x) :
    ∃ rest, w.method.body.Tracks (x.holding :: rest) ∧
      (∀ y b, b.Tracks (y.holding :: rest) →
        Tracks { w with
          method := { w.method with body := b }
          looseCatches := w.looseCatches.map fun r => if r.id = t then y else r }) ∧
      ∀ b, b.Tracks rest →
        Tracks { w with
          method := { w.method with body := b }
          looseCatches := w.looseCatches.filter fun r => r.id ≠ t } := by
  obtain ⟨-, us, vs, hxs, hfilter, hmap⟩ := exists_keyed_split hw.nodup_looseCatches hx
  refine ⟨w.method.holdings ++ (w.looseLocals.map LocalVar.holding ++
    (us.map CatchRange.holding ++ vs.map CatchRange.holding)), hw.perm ?_,
    fun y b hb => hb.perm ?_, fun b hb => hb.perm ?_⟩
  · rw [loose, hxs, List.map_append, List.map_cons]
    exact ((perm_middle_append ..).append_left _).trans List.perm_middle
  · change List.Perm _ (w.method.holdings ++ (_ ++ (w.looseCatches.map _).map CatchRange.holding))
    rw [hmap, List.map_append, List.map_cons]
    exact (((perm_middle_append ..).append_left _).trans List.perm_middle).symm
  · change List.Perm _ (w.method.holdings ++ (_ ++ (w.looseCatches.filter _).map CatchRange.holding))
    rw [hfilter, List.map_append]

/-- Keeping a variable that is created loose, or not created at all. -/
theorem keepLocal_tracks {act : BodyM LocalVar}
    (hact : Atomically act w.method.body fun v b => b.Tracks (v.holding :: w.holdings)) :
    Atomically (keepLocal act) w fun _ w' => w'.Tracks := by
  apply (atomically_onBody hact).bind
  intro v _ hstep
  obtain ⟨b, rfl, hb⟩ := hstep
  refine ⟨v.id, _, rfl, hb.perm ?_⟩
  rw [holdings, loose]
  change List.Perm _ (w.method.holdings ++ ((w.looseLocals ++ [v]).map LocalVar.holding ++ _))
  simpa using (perm_middle_append ..).symm

theorem getLocalIn_checks (place : Place) (t : HolderId) (w : Workbench) :
    Atomically (getLocalIn place t) w fun v w' => w' = w ∧ w.localIn? place t = some v := by
  apply Atomically.get
  cases hfind : w.localIn? place t with
  | none => exact .throw _
  | some v => exact (Surely.pure ⟨rfl, rfl⟩).atomically

theorem getLooseCatch_checks (t : HolderId) (w : Workbench) :
    Atomically (getLooseCatch t) w fun r w' => w' = w ∧ w.looseCatch? t = some r := by
  apply Atomically.get
  cases hfind : w.looseCatch? t with
  | none => exact .throw _
  | some r => exact (Surely.pure ⟨rfl, rfl⟩).atomically

/-! ### Actions -/

theorem addLocal_tracks (hw : w.Tracks) (place : Place) (slot : Int) (name : UnqualifiedName)
    (type : FieldType) (start stop : Option Handle) :
    Atomically (addLocal place slot name type start stop) w fun _ w' => w'.Tracks := by
  cases place with
  | attached => exact onMethod_tracks (Method.Tracks.addLocal hw slot name type start stop)
  | loose =>
    exact keepLocal_tracks ((LocalVar.create_tracks hw slot name type start stop).mono
      fun _ _ hb => hb.2)

theorem duplicateLocal_tracks (hw : w.Tracks) (place : Place) (t : HolderId) :
    Atomically (duplicateLocal place t) w fun _ w' => w'.Tracks := by
  refine (getLocalIn_checks place t w).check fun v _ => ?_
  exact keepLocal_tracks ((LocalVar.duplicate_tracks hw v).mono fun _ _ hb => hb.2)

theorem editLocal_tracks (hw : w.Tracks) (place : Place) (t : HolderId) (e : LocalEdit) :
    Atomically (editLocal place t e.apply) w fun _ w' => w'.Tracks := by
  cases place with
  | attached => exact onMethod_tracks (Method.Tracks.editLocal hw e.careful t)
  | loose =>
    refine (getLocalIn_checks .loose t w).check fun v hfind => ?_
    obtain ⟨rest, hv, hput, -⟩ := hw.looseLocal_split hfind
    apply (atomically_onBody (e.careful _ _ v hv)).bind
    intro u _ hstep
    obtain ⟨b, rfl, -, -, hb⟩ := hstep
    exact ⟨(), _, rfl, hput u b hb⟩

theorem removeLocal_tracks (hw : w.Tracks) (t : HolderId) :
    Atomically (perform (.removeLocal t)) w fun _ w' => w'.Tracks := by
  apply (atomically_onMethod (Method.Tracks.removeLocal hw t)).bind
  intro v _ hstep
  obtain ⟨m, rfl, hm⟩ := hstep
  refine ⟨(), _, rfl, hm.perm ?_⟩
  change List.Perm _ (m.holdings ++ ((w.looseLocals ++ [v]).map LocalVar.holding ++ _))
  rw [loose]
  simpa using List.Perm.append_left m.holdings List.perm_middle.symm

theorem dropLocal_tracks (hw : w.Tracks) (t : HolderId) :
    Atomically (perform (.dropLocal t)) w fun _ w' => w'.Tracks := by
  refine (getLocalIn_checks .loose t w).check fun v hfind => ?_
  obtain ⟨rest, hv, -, htake⟩ := hw.looseLocal_split hfind
  obtain ⟨u, b, hok, -, rfl, hb⟩ := LocalVar.release_surely hv
  refine .inr ⟨(), _, ?_, htake b hb.forget⟩
  change ((fun _ => ()) <$> onBody v.release) { w with looseLocals := _ } = _
  refine map_of_ok (x := { v with start := none, stop := none }) (fun _ => ()) ?_
  rw [onBody, onMethod, Method.onBody, hok]

theorem addCatch_tracks (hw : w.Tracks) (place : Place) (first last handler : Handle)
    (caught : Option BinaryName) :
    Atomically (addCatch place first last handler caught) w fun _ w' => w'.Tracks := by
  cases place with
  | attached => exact onMethod_tracks (Method.Tracks.addCatch hw first last handler caught)
  | loose =>
    apply (atomically_onBody (CatchRange.create_tracks hw first last handler caught)).bind
    intro r _ hstep
    obtain ⟨b, rfl, -, hb⟩ := hstep
    refine ⟨r.id, _, rfl, hb.perm ?_⟩
    change List.Perm _ (w.method.holdings ++ (_ ++ (w.looseCatches ++ [r]).map CatchRange.holding))
    rw [loose, List.map_append]
    have hlast := (List.perm_append_comm :
      List.Perm (w.looseCatches.map CatchRange.holding ++ [r.holding]) _)
    exact ((hlast.append_left _).append_left _ |>.trans (perm_middle_append ..)).symm

theorem editLooseCatch_tracks (hw : w.Tracks) (t : HolderId) (e : CatchEdit) :
    Atomically (editLooseCatch t e.apply) w fun _ w' => w'.Tracks := by
  refine (getLooseCatch_checks t w).check fun r hfind => ?_
  obtain ⟨rest, hr, hput, -⟩ := hw.looseCatch_split hfind
  apply (atomically_onBody (e.careful _ _ r hr)).bind
  intro s _ hstep
  obtain ⟨b, rfl, -, -, hb⟩ := hstep
  exact ⟨(), _, rfl, hput s b hb⟩

theorem dropLooseCatch_tracks (hw : w.Tracks) (t : HolderId) :
    Atomically (dropLooseCatch t) w fun _ w' => w'.Tracks := by
  refine (getLooseCatch_checks t w).check fun r hfind => ?_
  obtain ⟨rest, hr, -, htake⟩ := hw.looseCatch_split hfind
  obtain ⟨_, b, hok, -, hb⟩ := CatchRange.release_surely hr
  refine .inr ⟨(), _, ?_, htake b hb⟩
  change onBody r.release { w with looseCatches := _ } = _
  rw [onBody, onMethod, Method.onBody, hok]

/-- An action that fails has done nothing, and one that succeeds is accounted for. -/
theorem perform_tracks (hw : w.Tracks) (a : Action) :
    Atomically (perform a) w fun _ w' => w'.Tracks := by
  cases a with
  | edit e =>
    apply Atomically.map
    apply (atomically_onBody (Body.Tracks.perform hw e)).mono
    intro _ _ hstep
    obtain ⟨b, rfl, hb⟩ := hstep
    exact hb
  | addLocal place slot name type start stop =>
    exact (addLocal_tracks hw place slot name type start stop).map
  | duplicateLocal place t => exact (duplicateLocal_tracks hw place t).map
  | editLocal place t e => exact editLocal_tracks hw place t e
  | removeLocal t => exact removeLocal_tracks hw t
  | dropLocal t => exact dropLocal_tracks hw t
  | addCatch place first last handler caught =>
    exact (addCatch_tracks hw place first last handler caught).map
  | editCatch t e => exact editLooseCatch_tracks hw t e
  | removeCatch t => exact onMethod_tracks (Method.Tracks.removeCatch hw t)
  | dropCatch t => exact dropLooseCatch_tracks hw t
  | reroute old new =>
    exact onMethod_tracks ((Method.Tracks.reroute hw old new).mono fun _ _ hm => hm.2.2)
  | removeInstruction h =>
    exact (onMethod_tracks ((Method.Tracks.removeInstruction hw h).mono fun _ _ hm => hm.2)).map

theorem tracks_empty : (∅ : Workbench).Tracks := Body.Tracks.empty

theorem performAll_tracks (actions : List Action) : (performAll perform actions ∅).2.Tracks :=
  performAll_preserves (P := Tracks) (fun a _ hw => (perform_tracks hw a).preserves hw) actions
    tracks_empty

/-- Whatever has been done on a workbench, every variable and handler has an identity of its own and
is counted at an instruction as often as it points there, nothing else is counted, and none of them
points at an instruction that is gone, so that resolving it cannot fail over one. -/
theorem session_accounted (actions : List Action) :
    (performAll perform actions ∅).2.Accounted :=
  (performAll_tracks actions).accounted

/-! ### Failure -/

/-- Whatever has been done on a workbench, an action that fails there leaves all of it as it was:
code, positions, registrations, counters, and every variable and handler. -/
theorem failed_action_changes_nothing (actions : List Action) (a : Action) {fault : Fault}
    (hfault : (outcome (perform a) (performAll perform actions ∅).2).1 = .error fault) :
    (outcome (perform a) (performAll perform actions ∅).2).2 =
      (performAll perform actions ∅).2 := by
  rcases perform_tracks (performAll_tracks actions) a with ⟨e, herror⟩ | ⟨x, w, hok, -⟩
  · rw [outcome_of_error herror]
  · rw [outcome_of_ok hok] at hfault
    cases hfault

/-- A loose handler at an instruction keeps it from being removed, and then a variable of the method
that is there as well has not been redirected either. -/
theorem failed_removal_changes_nothing :
    let actions : List Action := [.edit (.append .nop), .edit (.append .nop),
      .addLocal .attached 3 ⟨"x", by decide⟩ (.base .int) (some ⟨0⟩) (some ⟨1⟩),
      .addCatch .loose ⟨0⟩ ⟨1⟩ ⟨1⟩ none]
    (outcome (perform (.removeInstruction ⟨0⟩)) (performAll perform actions ∅).2).1 =
        .error (.unknownHolder ⟨1⟩) ∧
      (outcome (perform (.removeInstruction ⟨0⟩)) (performAll perform actions ∅).2).2 =
        (performAll perform actions ∅).2 := by
  intro actions
  have hfault : (outcome (perform (.removeInstruction ⟨0⟩)) (performAll perform actions ∅).2).1 =
      .error (.unknownHolder ⟨1⟩) := rfl
  exact ⟨hfault, failed_action_changes_nothing actions _ hfault⟩

end Workbench

end JvmAssembler
