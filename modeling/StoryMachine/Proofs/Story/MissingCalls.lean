import StoryMachine.Proofs.Content.Places
import StoryMachine.Proofs.Story.Lasting
import StoryMachine.Proofs.Story.Ready

/-!
# Calls that wait for the host

A line comes to wait for the host only at a divert of the content that calls a function which is
not bound, and which no knot stands in for. Which functions these are is told by a look through
the content, for the names that are bound and for whether knots may stand in. Lines change
neither, so no line ever waits for another function.

* `Story.SameSettings` : the same functions are missing;
* `Flow.performDivert_of_ok`, `Flow.lineStep_waits_for` : what a divert, and a step, waits for;
* `Story.Awaits` : what a story waits for is among some names, and calls keep this;
* `waits_for_missing` : a whole run.
-/

namespace StoryMachine

namespace Story

variable {s t u : Story}

/-- What decides which functions are missing is the same: the content, the names that are bound,
and whether knots may stand in. -/
structure SameSettings (s u : Story) : Prop where
  content : u.content = s.content
  bound (name : String) : u.bindings.contains name = s.bindings.contains name
  fallbacks : u.fallbacks = s.fallbacks

namespace SameSettings

theorem refl (s : Story) : s.SameSettings s :=
  ⟨rfl, fun _ => rfl, rfl⟩

theorem trans (h : s.SameSettings t) (h' : t.SameSettings u) : s.SameSettings u :=
  ⟨h'.content.trans h.content, fun name => (h'.bound name).trans (h.bound name),
    h'.fallbacks.trans h.fallbacks⟩

/-- What else changes does not matter. -/
theorem of_same (h : s.SameSettings t) (hcontent : u.content = t.content)
    (hbindings : u.bindings = t.bindings) (hfallbacks : u.fallbacks = t.fallbacks) :
    s.SameSettings u :=
  h.trans ⟨hcontent, fun _ => by rw [hbindings], hfallbacks⟩

theorem missingBindings (h : s.SameSettings u) : u.missingBindings = s.missingBindings := by
  have htree : u.tree = s.tree := congrArg Content.tree h.content
  have hmissing : u.isMissing = s.isMissing := by
    funext name
    rw [isMissing, isMissing, h.bound, h.fallbacks, htree]
  rw [Story.missingBindings, Story.missingBindings, htree, hmissing]

end SameSettings

end Story

/-! ## Lines keep the settings -/

open Story (SameSettings)

theorem SortedMap.contains_insert_of_get? {β : Type} {m : Table β} {name : String} {b : β}
    (h : m.get? name = some b) (new : β) (other : String) :
    (m.insert name new).contains other = m.contains other := by
  by_cases hname : other = name
  · subst hname
    rw [contains, contains, get?_insert_self, h]
    rfl
  · rw [contains, contains, get?_insert_of_ne m new hname]

/-- Bound functions are called, and stay bound. -/
theorem Changes.sameSettings {c : Content} {fx : Effects} {s u : Story} (h : Changes c fx s u) :
    s.SameSettings u := by
  induction h with
  | refl => exact .refl s
  | tail _ h ih =>
    cases h with
    | state | wait | unsafeCall => exact ih.of_same rfl rfl rfl
    | called _ _ hb =>
      exact ih.trans ⟨rfl, fun other => SortedMap.contains_insert_of_get? hb _ other, rfl⟩

namespace Flow

variable {s t u v : Story} {limited ended : Bool} {nodes : Nat}

theorem sameSettings_lineStep (s : Story) : s.SameSettings (lineStep.after s) := by
  have hplain := (changes_plainStep s).sameSettings
  cases hstep : lineStep s with
  | error e u =>
    rw [after_of_error (plainStep_of_lineStep_error hstep)] at hplain
    rwa [after_of_error hstep]
  | ok ended u =>
    rw [after_of_ok hstep]
    obtain ⟨v, hv, ⟨-, -, rfl⟩ | ⟨-, -, hwatch⟩⟩ := lineStep_cases hstep
    · rwa [after_of_ok hv] at hplain
    · rw [after_of_ok hv] at hplain
      obtain ⟨state, kept, heq⟩ := v.watchLine_eq
      rw [hwatch] at heq
      have hu : u = { v with state, lineState := kept } := heq
      rw [hu]
      exact hplain.of_same rfl rfl rfl

theorem sameSettings_openLine (h : openLine limited s = .ok () t) : s.SameSettings t := by
  rcases openLine_cases h with ⟨-, rfl⟩ | ⟨-, -, rfl⟩
  · exact ⟨rfl, fun _ => rfl, rfl⟩
  · exact ⟨rfl, fun _ => rfl, rfl⟩

theorem sameSettings_runLine (h : runLine nodes s = .ok ended u) : s.SameSettings u := by
  induction nodes generalizing s with
  | zero =>
    cases h
    exact ⟨rfl, fun _ => rfl, rfl⟩
  | succ nodes ih =>
    have hsettings := sameSettings_lineStep s
    unfold runLine at h
    cases hstep : lineStep s with
    | error e t =>
      rw [bind_ok (attempt_error hstep)] at h
      cases h
      rw [after_of_error hstep] at hsettings
      exact hsettings.of_same rfl rfl rfl
    | ok last t =>
      rw [after_of_ok hstep] at hsettings
      rw [bind_ok (attempt_ok hstep)] at h
      dsimp only at h
      rw [bind_ok (get_ok t)] at h
      split at h
      · cases h
        exact hsettings.of_same rfl rfl rfl
      · split at h
        · cases h
          exact hsettings
        · rw [bind_ok (state_ok t)] at h
          split at h
          · cases h
            exact hsettings
          · exact hsettings.trans (ih h)

theorem sameSettings_continueLine (limited : Bool) (nodes : Nat) (s : Story) :
    s.SameSettings ((continueLine limited nodes).after s) := by
  cases hopen : openLine limited s with
  | ok _ t =>
    obtain ⟨ended, u, hrun⟩ := exists_runLine_eq nodes t
    have hend : u.SameSettings (u.endLine ended) := by
      unfold Story.endLine
      split
      · obtain ⟨vars, events, heq⟩ := u.closeLine_eq_checkEnd
        rw [heq]
        exact ⟨rfl, fun _ => rfl, rfl⟩
      · exact .refl u
    obtain ⟨warnings, events, shown, hreport⟩ := after_reportIssues (u.endLine ended)
    rw [after, continueLine_eq hopen hrun]
    rw [after] at hreport
    rw [hreport]
    exact (((sameSettings_openLine hopen).trans (sameSettings_runLine hrun)).trans hend).of_same
      rfl rfl rfl
  | error e t =>
    unfold continueLine
    rw [after_bind_error hopen]
    obtain ⟨-, -, -, rfl⟩ := openLine_error hopen
    exact ⟨rfl, fun _ => rfl, rfl⟩

theorem sameSettings_next (s : Story) : s.SameSettings (next.after s) := by
  rw [after_next]
  exact holds_refuseWaiting (.refl s) fun _ => sameSettings_continueLine false nodeBudget s

theorem keptByLines_sameSettings (s : Story) : Story.KeptByLines s.SameSettings where
  opened h hopen := h.trans (sameSettings_openLine hopen)
  step {u} h := h.trans (sameSettings_lineStep u)
  next {u} h := h.trans (sameSettings_next u)
  declared {u} h := by
    have hchanges : Changes u.content .silent u
        ((jumpTo (Path.parse declarationsName) false).after u) := within_jumpTo _ Bool.noConfusion u rfl
    exact h.trans hchanges.sameSettings

theorem sameSettings_declareGlobals (s : Story) : s.SameSettings (declareGlobals.after s) := by
  unfold declareGlobals
  rw [after_bind_ok (tree_ok s)]
  split
  · dsimp only
    rw [after_bind_ok (state_ok s)]
    have hchanges : Changes s.content .silent s
        ((jumpTo (Path.parse declarationsName) false).after s) := within_jumpTo _ Bool.noConfusion s rfl
    have hjump := hchanges.sameSettings
    cases hrun : jumpTo (Path.parse declarationsName) false s with
    | error e u =>
      rw [after_bind_error hrun]
      rwa [after_of_error hrun] at hjump
    | ok _ u =>
      rw [after_bind_ok hrun]
      rw [after_of_ok hrun] at hjump
      have hline := hjump.trans (sameSettings_continueLine false nodeBudget u)
      cases hcontinue : continueLine false nodeBudget u with
      | error e v =>
        rw [after_bind_error hcontinue]
        rwa [after_of_error hcontinue] at hline
      | ok _ v =>
        rw [after_bind_ok hcontinue]
        rw [after_of_ok hcontinue] at hline
        exact hline.of_same rfl rfl rfl
  · exact ⟨rfl, fun _ => rfl, rfl⟩

/-- The steps of a call are made under the settings in front of it. -/
theorem sameSettings_of_call {call : HostCall} (h : call.Visits s v) : s.SameSettings v :=
  (keptByLines_sameSettings s).visitsCall (.refl s) h fun _ _ => ⟨rfl, fun _ => rfl, rfl⟩

/-! ## What a step waits for -/

/-- A call waits for its result only if the function is missing. -/
theorem callExternal_of_ok {name : String} {count : Nat}
    (h : callExternal name count s = .ok () u) :
    u.pending = s.pending ∨
      s.isMissing name = true ∧ ∃ arguments, u.pending = some ⟨name, arguments⟩ := by
  unfold callExternal at h
  rw [bind_ok (get_ok s)] at h
  dsimp only at h
  generalize hstandIn : (if ((s.bindings.get? name).isNone && s.fallbacks) = true then
    s.tree.knot? name else none) = standIn at h
  cases standIn with
  | some knot =>
    cases h
    exact .inl rfl
  | none =>
    dsimp only at h
    split at h
    · split at h
      · cases h
      · cases h
        exact .inl rfl
    · obtain ⟨arguments, v, hpop, h⟩ := exists_of_bind_eq_ok h
      have hsame : v.pending = s.pending := by
        have hchanges : Changes s.content .silent s ((popArguments name [] count).after s) :=
          within_popArguments name [] count s rfl
        rw [after_of_ok hpop] at hchanges
        rw [(hchanges.state_only rfl).2]
      cases hbinding : s.bindings.get? name with
      | some b =>
        rw [hbinding] at h
        cases (callBound_ok name b arguments v).symm.trans h
        exact .inl hsame
      | none =>
        rw [hbinding] at h hstandIn
        cases h
        refine .inr ⟨?_, arguments, rfl⟩
        rw [Story.isMissing, SortedMap.contains, hbinding]
        cases hfallbacks : s.fallbacks with
        | false => rfl
        | true =>
          rw [hfallbacks] at hstandIn
          rw [show s.tree.knot? name = none from hstandIn]
          rfl

/-- A story waits behind a divert for what it waited for in front of it, or for the function that
the divert calls, which is missing. -/
def WaitsForDivert (s : Story) (d : Divert) (u : Story) : Prop :=
  u.pending = s.pending ∨ d.isExternal = true ∧ s.isMissing d.functionName = true ∧
    ∃ arguments, u.pending = some ⟨d.functionName, arguments⟩

theorem takeDivert_waits {id : NodeId} {d : Divert} (h : takeDivert id d s = .ok () u) :
    WaitsForDivert s d u := by
  by_cases hcall : ∃ p count, d.destination = .path p ∧ d.kind = .external count
  · obtain ⟨p, count, hpath, hkind⟩ := hcall
    have hname : d.functionName = p.render := by
      rw [Divert.functionName, Divert.path?, hpath]
    have hexternal : d.isExternal = true := by rw [Divert.isExternal, hkind]
    have hrun : takeDivert id d = callExternal p.render count := by
      unfold takeDivert
      rw [hpath, hkind]
    rw [hrun] at h
    rw [WaitsForDivert, hname]
    exact (callExternal_of_ok h).imp_right fun h => ⟨hexternal, h⟩
  · have hchanges : Changes s.content .silent s ((takeDivert id d).after s) :=
      within_takeDivert_of_no_call hcall s rfl
    rw [after_of_ok h] at hchanges
    exact .inl (by rw [(hchanges.state_only rfl).2])

/-- A divert waits only for the function that it calls. -/
theorem performDivert_of_ok {id : NodeId} {d : Divert} (h : performDivert id d s = .ok () u) :
    WaitsForDivert s d u := by
  unfold performDivert at h
  split at h
  · obtain ⟨condition, v, hpop, h⟩ := exists_of_bind_eq_ok h
    have hv : Changes s.content .silent s v := by
      rw [← after_of_ok hpop]
      exact within_pop s rfl
    obtain ⟨holds, w, htruth, h⟩ := exists_of_bind_eq_ok h
    have hw : w = v := by
      cases hcondition : condition.truth with
      | ok holds =>
        rw [hcondition] at htruth
        cases htruth
        rfl
      | error e =>
        rw [hcondition] at htruth
        cases htruth
    subst hw
    cases holds with
    | false =>
      cases h
      exact .inl (by rw [(hv.state_only rfl).2])
    | true =>
      have hmissing : w.isMissing d.functionName = s.isMissing d.functionName := by
        rw [(hv.state_only rfl).2]
        rfl
      have hpending : w.pending = s.pending := by rw [(hv.state_only rfl).2]
      have hwaits := takeDivert_waits h
      rwa [WaitsForDivert, hpending, hmissing] at hwaits
  · exact takeDivert_waits h

end Flow

namespace Story

theorem mem_keys_ofList {name : String} {names : List String} (h : name ∈ names) :
    name ∈ (SortedMap.ofList (names.map (·, ())) : Table Unit).keys := by
  have hget : Entries.get? name (Entries.ofList (names.map (·, ()))) = some () := by
    induction names with
    | nil => cases h
    | cons first rest ih =>
      rw [List.map_cons, Entries.get?_ofList_cons]
      rcases List.mem_cons.mp h with rfl | h
      · rw [if_pos rfl]
        cases Entries.get? name (Entries.ofList (rest.map (·, ()))) <;> rfl
      · rw [ih h]
        rfl
  exact List.mem_map.mpr ⟨(name, ()), SortedMap.mem_entries_iff.mpr hget, rfl⟩

/-- A divert of the content that calls a missing function is found. -/
theorem mem_missingBindings {s : Story} {id : NodeId} {d : Divert}
    (hleaf : s.tree.leaf? id = some (.divert d)) (hexternal : d.isExternal = true)
    (hmissing : s.isMissing d.functionName = true) : d.functionName ∈ s.missingBindings := by
  have hdivert : externalDivert? s.tree id = some d := by
    rw [externalDivert?, hleaf]
    exact if_pos hexternal
  have hid := ContentTree.lt_size_of_leaf? hleaf
  refine mem_keys_ofList (List.mem_filter.mpr ⟨List.mem_filterMap.mpr ?_, hmissing⟩)
  exact ⟨id, List.mem_range.mpr hid, by rw [hdivert]; rfl⟩

end Story

namespace Flow

variable {s u : Story} {ended : Bool}

/-- A step of a line that begins to wait waits for a function that is missing. -/
theorem lineStep_waits_for (hpending : s.pending = none) (h : lineStep s = .ok ended u)
    {call : PendingCall} (hcall : u.pending = some call) : call.name ∈ s.missingBindings := by
  obtain ⟨hstep, -, -⟩ := lineStep_waits hpending h (by rw [hcall]; rfl)
  cases hcursor : s.state.cursor with
  | none =>
    rw [step_of_none hcursor] at hstep
    cases hstep
    rw [hpending] at hcall
    cases hcall
  | some place =>
    obtain ⟨w, hrun, visits, turns, place, hw⟩ := exists_step_eq (s := s) (by rw [hcursor]; rfl)
    have hwpending : w.pending = none := by rw [hw]; exact hpending
    rw [hstep] at hrun
    obtain ⟨_, v, hexecute, hleave⟩ := exists_of_bind_eq_ok hrun.symm
    have hvcall : v.pending = some call := by
      have hchanges : Changes v.content .silent v ((leaveLeaf s.nextLeaf?).after v) :=
        within_leaveLeaf _ v rfl
      rw [after_of_ok hleave] at hchanges
      rw [← hcall, (hchanges.state_only rfl).2]
    by_cases hdivert : ∃ id d, s.nextLeaf? = some (id, .divert d)
    · obtain ⟨id, d, hleaf⟩ := hdivert
      rw [hleaf, executeLeaf_divert] at hexecute
      rcases performDivert_of_ok hexecute with hsame | ⟨hexternal, hmissing, arguments, hname⟩
      · rw [hsame, hwpending] at hvcall
        cases hvcall
      · rw [hvcall] at hname
        cases hname
        have hsettings : w.isMissing d.functionName = s.isMissing d.functionName := by
          rw [hw]
          rfl
        rw [hsettings] at hmissing
        exact Story.mem_missingBindings (Story.leaf?_of_nextLeaf? hleaf) hexternal hmissing
    · have hchanges : Changes w.content .uncalled w ((executeLeaf s.nextLeaf?).after w) :=
        within_executeLeaf rfl (by rw [hw]; exact s.leaf?_of_mem_nextLeaf?)
          (fun id d hleaf => absurd ⟨id, d, hleaf⟩ hdivert) (fun _ _ _ => rfl) w rfl
      rw [after_of_ok hexecute] at hchanges
      rw [hchanges.pending_eq_or.resolve_right fun h => Bool.false_ne_true h.1, hwpending] at hvcall
      cases hvcall

end Flow

/-! ## Runs -/

namespace Story

/-- What the story waits for is among some names. -/
def Awaits (names : List String) (s : Story) : Prop :=
  ∀ call, s.pending = some call → call.name ∈ names

variable {names : List String} {s u : Story}

theorem awaits_of_none (h : s.pending = none) : s.Awaits names := by
  intro call hcall
  rw [h] at hcall
  cases hcall

theorem Awaits.of_eq (h : s.Awaits names) (hpending : u.pending = s.pending) : u.Awaits names :=
  fun call hcall => h call (hpending ▸ hcall)

theorem pending_endLine (s : Story) (ended : Bool) : (s.endLine ended).pending = s.pending := by
  unfold endLine
  split
  · obtain ⟨vars, events, heq⟩ := s.closeLine_eq_checkEnd
    rw [heq]
  · rfl

/-- What the lines of a call wait for is missing under the settings in front of it. -/
theorem callInvariant_awaits (names : List String) (A : HostCall → Story → Prop) :
    CallInvariant (fun v => v.missingBindings = names) A (fun _ => True)
      fun s => s.Orderly (fun _ => True) ∧ s.Awaits names := by
  have horderly : CallInvariant (fun v => v.missingBindings = names) A (fun _ => True)
      (Orderly fun _ => True) := Flow.trivialLine.callInvariant
  exact {
    same := fun hs h => ⟨horderly.same hs.1 h,
      h.pending.elim (fun hnone => awaits_of_none hnone) hs.2.of_eq⟩
    silent := fun hs hidle hchanges => ⟨horderly.silent hs.1 hidle hchanges,
      hs.2.of_eq (by rw [(hchanges.state_only rfl).2])⟩
    line := fun {s limited nodes} hnodes hs hpending _ hvisits => by
      refine ⟨horderly.line hnodes hs.1 hpending (fun _ _ _ => trivial) hvisits, ?_⟩
      cases hopen : Flow.openLine limited s with
      | error e t =>
        rw [Flow.continueLine, Flow.after_bind_error hopen]
        obtain ⟨-, -, -, rfl⟩ := Flow.openLine_error hopen
        exact awaits_of_none hpending
      | ok _ t =>
        obtain ⟨ended, v, houtcome, hrun⟩ :=
          Flow.continueLine_outcome Flow.trivialLine hnodes hs.1 hpending hopen hvisits
        obtain ⟨warnings, events, shown, hreport⟩ := Flow.after_reportIssues (v.endLine ended)
        have hsame : ((Flow.continueLine limited nodes).after s).pending = v.pending := by
          rw [Flow.after, hrun]
          rw [Flow.after] at hreport
          rw [hreport]
          exact v.pending_endLine ended
        have hv : v.Awaits names := by
          cases houtcome with
          | outOfNodes _ _ hnone => exact awaits_of_none hnone
          | failed hv hstep =>
            have hnone := Flow.pending_of_lineStep_error hv.pending hstep
            exact awaits_of_none hnone
          | waits hv hstep =>
            exact fun call hcall => hv.source ▸ Flow.lineStep_waits_for hv.pending hstep hcall
          | finished _ _ hnone => exact awaits_of_none hnone
        exact hv.of_eq hsame
    evaluate := fun name arguments hs hidle => ⟨horderly.evaluate name arguments hs.1 hidle,
      awaits_of_none
        (Flow.settled_evaluate name arguments hidle (hs.1.idle hidle.lineOpen)).1.pending⟩
    load := fun hallowed hs hidle hread => ⟨horderly.load hallowed hs.1 hidle hread,
      awaits_of_none hidle.pending⟩
    restore := fun hallowed hs hidle hkey => ⟨horderly.restore hallowed hs.1 hidle hkey,
      awaits_of_none hidle.pending⟩
    start := fun hallowed hs hidle => ⟨horderly.start hallowed hs.1 hidle,
      awaits_of_none hidle.pending⟩
    back := fun place hs => ⟨horderly.back place hs.1, hs.2⟩ }

/-- A new story waits for a missing function only. -/
theorem awaits_of_ofContent {content : Content} {seed : Int32}
    (h : Story.ofContent content seed = .ok s) : s.Awaits s.missingBindings := by
  let start := Story.unstarted content seed
  have hstart : start.Orderly (fun _ => True) ∧ start.Awaits start.missingBindings :=
    ⟨.of_idle rfl rfl, awaits_of_none rfl⟩
  have hdeclared :=
    (callInvariant_awaits start.missingBindings fun _ _ => True).declareGlobals hstart ⟨rfl, rfl⟩ rfl
      fun v hv => ((Flow.keptByLines_sameSettings _).visitsDeclarations (.refl _) hv).missingBindings
  have hsettings := (Flow.sameSettings_declareGlobals start).missingBindings
  obtain ⟨v, warnings, hv, rfl⟩ := Story.ofContent_ok h
  rw [Flow.after_of_ok hv] at hdeclared hsettings
  rw [← hsettings] at hdeclared
  exact hdeclared.2

end Story

/-- In a run that keeps the settings, the story only ever waits for a function that was reported
as missing; so it never waits if none was. -/
theorem waits_for_missing {s u : Story} (hs : Reachable s)
    (hstart : s.pending = none ∨ ∃ content seed, Story.ofContent content seed = .ok s)
    (h : CallRun (fun call v => v.SameSettings (call.after v)) s u) :
    (∀ call, u.pending = some call → call.name ∈ s.missingBindings) ∧
      (s.missingBindings = [] → u.status ≠ .awaitingExternal) := by
  have hinvariant := Story.callInvariant_awaits s.missingBindings fun _ _ => True
  have hruns : (u.Orderly (fun _ => True) ∧ u.Awaits s.missingBindings) ∧ s.SameSettings u := by
    induction h with
    | here =>
      refine ⟨⟨hs.orderly Flow.trivialLine fun _ _ _ _ _ _ => trivial, ?_⟩, .refl s⟩
      rcases hstart with hnone | ⟨content, seed, hcontent⟩
      · exact Story.awaits_of_none hnone
      · exact Story.awaits_of_ofContent hcontent
    | call _ call hallowed ih =>
      refine ⟨hinvariant.after_call ih.1 call trivial (fun _ _ _ => trivial) fun v hv => ?_,
        ih.2.trans hallowed⟩
      exact (ih.2.trans (Flow.sameSettings_of_call hv)).missingBindings
  refine ⟨hruns.1.2, fun hnone hstatus => ?_⟩
  cases hpending : u.pending with
  | some call =>
    have hmem := hruns.1.2 call hpending
    rw [hnone] at hmem
    cases hmem
  | none =>
    unfold Story.status at hstatus
    rw [hpending] at hstatus
    split at hstatus
    · cases hstatus
    · split at hstatus
      · next hwaits => cases hwaits
      · split at hstatus
        · cases hstatus
        · split at hstatus
          · cases hstatus
          · split at hstatus <;> cases hstatus

/-- The line with a call behind it, where the function is not bound: what the second continue waits
for was reported. -/
theorem asking_was_missing : ∃ s u, Reachable s ∧
    CallRun (fun call v => v.SameSettings (call.after v)) s u ∧ u.pending.isSome = true ∧
    ∀ call, u.pending = some call → call.name ∈ s.missingBindings := by
  let first := Story.undeclared asking 0
  have hstart : Story.ofContent asking 0 = .ok first := Story.ofContent_undeclared rfl rfl
  have hs : Reachable first := .start hstart fun _ _ => trivial
  have hnext : ∀ v : Story, v.SameSettings (HostCall.next.after v) := by
    intro v
    have hafter : HostCall.next.after v = Flow.next.after v := Flow.after_discard Flow.next v
    rw [hafter]
    exact Flow.sameSettings_next v
  have hrun : CallRun (fun call v => v.SameSettings (call.after v)) first
      (HostCall.next.after (HostCall.next.after first)) :=
    .call (.call .here .next (hnext _)) .next (hnext _)
  have hwaits : (HostCall.next.after (HostCall.next.after first)).pending.isSome = true := by
    decide +kernel
  exact ⟨first, _, hs, hrun, hwaits, (waits_for_missing hs (.inl rfl) hrun).1⟩

end StoryMachine
