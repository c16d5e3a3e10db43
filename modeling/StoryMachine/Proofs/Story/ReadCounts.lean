import StoryMachine.Proofs.Content.Targets
import StoryMachine.Proofs.Story.VisitCounts

/-!
# Who reads the counts of visits

The visits to a container are counted under the text of its path. Content reads them through the
container that a path leads to, whichever way the path is spelled: a target that a command takes,
and a path in the content itself, give the same number. The host reads what is counted under the
very text that it gives. That is the same number if the text is that of the path of the container;
under any other spelling nothing is ever counted, so the host reads that there was no visit.

* `State.CountsContainers` : visits are counted under the texts of the paths of containers;
* `Run.countsContainers` : they are in every run which brings in such states only;
* `Flow.readers_of_counts` : what the three readers give.
-/

namespace StoryMachine

open ContentTree

namespace State

/-- Visits are counted under the texts of the paths of containers. -/
def CountsContainers (t : ContentTree) (s : State) : Prop :=
  ∀ key n, s.visits.get? key = some n → ∃ id, t.isContainer id = true ∧ key = countKey t id

/-- Entering a container counts under its name, or leaves the counts. -/
theorem visits_enter (s : State) (t : ContentTree) (id : NodeId) (atStart : Bool) :
    (s.enter t id atStart).visits = s.visits ∨
      ∃ n, t.isContainer id = true ∧
        (s.enter t id atStart).visits = s.visits.insert (countKey t id) n := by
  unfold enter isContainer
  cases t.container? id with
  | none => exact .inl rfl
  | some c =>
    dsimp only
    split
    · exact .inl rfl
    · cases c.flags.visits with
      | true => exact .inr ⟨_, rfl, rfl⟩
      | false => exact .inl rfl

end State

open State

/-- What a step changes leaves the visits, or counts one to a container. -/
theorem StateChange.visits_cases {c : Content} {fx : Effects} {s u : State}
    (h : StateChange c fx s u) : u.visits = s.visits ∨
      ∃ id n, c.tree.isContainer id = true ∧ u.visits = s.visits.insert (countKey c.tree id) n := by
  cases h with
  | enter id atStart =>
    rcases s.visits_enter c.tree id atStart with hsame | ⟨n, hcontainer, hinsert⟩
    · exact .inl hsame
    · exact .inr ⟨id, n, hcontainer, hinsert⟩
  | «return» h =>
    obtain ⟨output, stack, -, rfl⟩ := popFrame_ok h
    exact .inl rfl
  | markText =>
    obtain ⟨thread, hmark, -⟩ := s.exists_markText_eq
    exact .inl (by rw [hmark])
  | _ => exact .inl rfl

namespace State

theorem countsContainers_start (t : ContentTree) (seed : Int32) :
    (start seed).CountsContainers t :=
  fun _ _ h => nomatch h

/-- Counting under the paths of containers lasts. -/
theorem lasting_countsContainers :
    State.Lasting fun c state => state.CountsContainers c.tree where
  same h hsame := by
    rw [CountsContainers, hsame.visits]
    exact h
  change {c fx s u} h hchange key n hkey := by
    rcases hchange.visits_cases with hsame | ⟨id, m, hcontainer, hinsert⟩
    · exact h key n (hsame ▸ hkey)
    · by_cases hown : key = countKey c.tree id
      · exact ⟨id, hcontainer, hown⟩
      · rw [hinsert, SortedMap.get?_insert_of_ne _ _ hown] at hkey
        exact h key n hkey

end State

/-- What the host loads or restores counts the visits under the paths of containers. -/
def HostCall.BringsCounts : HostCall → Story → Prop
  | load text, s =>
    ∀ state, s.state.ofText s.tree text = .ok state → state.CountsContainers s.tree
  | restore snapshot, s => snapshot.state.CountsContainers s.tree
  | _, _ => True

/-- Wherever a host brings in only states that count under the paths of containers, all states do. -/
theorem Run.countsContainers {s : Story} (hs : Run (fun _ => True) HostCall.BringsCounts s) :
    s.state.CountsContainers s.tree := by
  have hcalls : Story.CallInvariant (fun _ => True) HostCall.BringsCounts (fun _ => True)
      fun s => s.Orderly (fun _ => True) ∧ s.Keeps fun c state => state.CountsContainers c.tree :=
    lasting_countsContainers.callInvariant (fun _ _ state hbrings _ hread => hbrings state hread)
      (fun _ _ hbrings _ => hbrings) fun _ seed _ _ => countsContainers_start _ seed
  have hkeeps := hcalls.run
    (fun _ seed => ⟨.of_idle rfl rfl, .of_none (countsContainers_start _ seed) rfl⟩)
    (fun _ _ _ _ _ _ => trivial) hs
  exact hkeeps.2.state

/-! ## Spellings -/

namespace ContentTree

variable {t : ContentTree} {path : String} {id other : Nat}

theorem exactContainer?_eq_some {f : Found} (h : f.exactContainer? t = some id) :
    f = ⟨id, false⟩ ∧ t.isContainer id = true := by
  obtain ⟨node, approximate⟩ := f
  unfold Found.exactContainer? Found.container? at h
  split at h
  · cases h
  · next hexact =>
    split at h
    · next hcontainer =>
      cases h
      exact ⟨congrArg (Found.mk node) (Bool.eq_false_iff.mpr hexact), hcontainer⟩
    · cases h

/-- A text that leads to a container, and is that of the path of one, is that of its own path. -/
theorem eq_of_leads_to (hnames : t.root.WellNamed) (hindexed : t.root.Indexed)
    (hleads : t.find (Path.parse path) = ⟨id, false⟩) (hother : t.isContainer other = true)
    (hpath : path = countKey t other) : other = id := by
  have hlt := lt_size_of_isContainer hother
  rw [hpath, countKey, parse_render_path hnames hindexed hlt, find_own_path hnames hlt] at hleads
  exact congrArg Found.node hleads

end ContentTree

/-- Nothing is counted under a text that leads to a container, but is not that of its path. -/
theorem Run.visitsUnder_other {s : Story} {path : String} {id : NodeId}
    (hs : Run (fun _ => True) HostCall.BringsCounts s) (hnames : s.tree.root.WellNamed)
    (hindexed : s.tree.root.Indexed) (hleads : s.tree.find (Path.parse path) = ⟨id, false⟩)
    (hspelling : path ≠ countKey s.tree id) : s.state.visitsUnder path = 0 := by
  unfold visitsUnder
  cases hcount : s.state.visits.get? path with
  | none => rfl
  | some n =>
    obtain ⟨other, hother, hpath⟩ := hs.countsContainers path n hcount
    obtain rfl := eq_of_leads_to hnames hindexed hleads hother hpath
    exact absurd hpath hspelling

namespace Flow

variable {s : Story} {c : Container} {p : Path} {path : String} {id : NodeId}

/-- The visits to a container that counts them. -/
theorem visitsOf_counted (hc : s.tree.container? id = some c) (hvisits : c.flags.visits = true) :
    visitsOf id s = .ok (s.state.visitsUnder (countKey s.tree id)) s := by
  have hcount : s.state.visits? s.tree id = some (s.state.visitsUnder (countKey s.tree id)) := by
    rw [visits?, hc]
    exact if_pos hvisits
  have hrun : visitsOf id s = .ok (s.state.visitsOrWarn s.tree id).1
      { s with state := (s.state.visitsOrWarn s.tree id).2 } := rfl
  rw [hrun, visitsOrWarn, hcount]

/-- The command takes the target on top of the evaluation stack, and finds the container there. -/
theorem readCount_of_leads {rest : List Token} (hc : s.tree.container? id = some c)
    (hvisits : c.flags.visits = true) (hleads : s.tree.find p = ⟨id, false⟩)
    (htop : s.state.evaluation = .value (.target p) :: rest) :
    performCommand .readCount s = .ok () { s with state := { s.state with
      evaluation :=
        .value (.int (Int32.ofInt (s.state.visitsUnder (countKey s.tree id)))) :: rest } } := by
  let popped : Story := { s with state := { s.state with evaluation := rest } }
  have htarget : popCountTarget .readCount s = .ok p popped := by
    have hpop : pop s = .ok (.value (.target p)) popped := pop_run_cons htop
    unfold popCountTarget
    rw [bind_ok hpop]
    rfl
  have hcontainer : s.tree.isContainer id = true := by rw [isContainer, hc]; rfl
  have hfound : (popped.tree.find p).exactContainer? popped.tree = some id := by
    show (s.tree.find p).exactContainer? s.tree = some id
    rw [hleads]
    exact if_pos hcontainer
  show pushCount .readCount visitsOf 0 s = _
  unfold pushCount
  rw [bind_ok htarget, bind_ok (tree_ok popped), hfound]
  dsimp only
  rw [bind_ok (visitsOf_counted (s := popped) hc hvisits)]
  rfl

/-- A path in the content leads to the container from wherever it stands, if it is absolute. -/
theorem pushReadCount_of_leads (hc : s.tree.container? id = some c) (hvisits : c.flags.visits = true)
    (habsolute : p.relative = false) (hleads : s.tree.find p = ⟨id, false⟩) (source : NodeId) :
    pushReadCount source p s = .ok () { s with
      state := s.state.push
        (.value (.int (Int32.ofInt (s.state.visitsUnder (countKey s.tree id))))) } := by
  have hcontainer : s.tree.isContainer id = true := by rw [isContainer, hc]; rfl
  have htarget : s.tree.targetContainer? source p = some id := by
    rw [targetContainer?, ContentTree.resolve, habsolute, Bool.not_false, if_pos rfl, hleads]
    exact if_pos hcontainer
  rw [pushReadCount_eq, htarget]
  dsimp only
  rw [bind_ok (visitsOf_counted hc hvisits)]
  rfl

/-- **Content reads one number, however a path to a container is spelled, and the host reads it
under the text of the path of the container.** Of a container that counts its visits, and an
absolute path that leads to it, the command that takes a target and a count in the content give what
is counted under the name of the container. The host reads the same number if it gives this name.
Under any other text it reads that there was no visit, in a tree whose names can be told apart and
in every run in which what is loaded and restored counts under the names of containers. -/
theorem readers_of_counts (hc : s.tree.container? id = some c) (hvisits : c.flags.visits = true)
    (habsolute : (Path.parse path).relative = false)
    (hleads : (s.tree.find (Path.parse path)).exactContainer? s.tree = some id) :
    (∀ rest, s.state.evaluation = .value (.target (Path.parse path)) :: rest →
      performCommand .readCount s = .ok () { s with state := { s.state with
        evaluation :=
          .value (.int (Int32.ofInt (s.state.visitsUnder (countKey s.tree id)))) :: rest } }) ∧
    (∀ source, pushReadCount source (Path.parse path) s = .ok () { s with
      state := s.state.push
        (.value (.int (Int32.ofInt (s.state.visitsUnder (countKey s.tree id))))) }) ∧
    (path = countKey s.tree id →
      s.state.visitsAt s.tree path = .ok (s.state.visitsUnder (countKey s.tree id))) ∧
    (path ≠ countKey s.tree id → Run (fun _ => True) HostCall.BringsCounts s →
      s.tree.root.WellNamed → s.tree.root.Indexed → s.state.visitsAt s.tree path = .ok 0) := by
  have hfound := (exactContainer?_eq_some hleads).1
  have hhost : s.state.visitsAt s.tree path = .ok (s.state.visitsUnder path) := by
    rw [visitsAt, hleads]
    rfl
  refine ⟨fun rest htop => readCount_of_leads hc hvisits hfound htop,
    pushReadCount_of_leads hc hvisits habsolute hfound, fun hspelling => ?_,
    fun hspelling hs hnames hindexed => ?_⟩
  · rw [hhost, hspelling]
  · rw [hhost, hs.visitsUnder_other hnames hindexed hfound hspelling]

end Flow

/-- A hub that counts its visits, as the first element of the root. -/
def hub : Content :=
  ⟨0, 21, .ofBlock (.container none ⟨false, false, false⟩
    [.container (some "hub") ⟨true, false, false⟩ [.leaf (.value (.text "a")), .leaf (.command .done)] []]
    []), .empty⟩

/-- Behind the visit to the hub its count is one, and the host that asks for it by the index of the
hub reads zero. -/
theorem Flow.hub_is_counted : ∃ s : Story, Run (fun _ => True) HostCall.BringsCounts s ∧
    s.tree.root.WellNamed ∧ s.tree.root.Indexed ∧
    (Flow.pushReadCount 2 (Path.parse "hub") s = .ok () { s with state := s.state.push (.value (.int 1)) } ∧
      s.state.visitsAt s.tree "hub" = .ok 1) ∧
    Flow.pushReadCount 2 (Path.parse "0") s = .ok () { s with state := s.state.push (.value (.int 1)) } ∧
      s.state.visitsAt s.tree "0" = .ok 0 := by
  let first := Story.undeclared hub 0
  have hstart : Story.ofContent hub 0 = .ok first := Story.ofContent_undeclared rfl rfl
  let s := HostCall.next.after first
  have hrun : Run (fun _ => True) HostCall.BringsCounts s :=
    .call (.start hstart fun _ _ => trivial) .next trivial fun _ _ => trivial
  have hlasts : State.Lasting fun c _ => c = hub := ⟨fun h _ => h, fun h _ => h⟩
  have hafter : s = Flow.next.after first := Flow.after_discard Flow.next first
  have htree : s.tree = hub.tree :=
    congrArg Content.tree (hafter ▸ (hlasts.keptByLines.next (.of_none rfl rfl : first.Keeps _)).state)
  have hnames : s.tree.root.WellNamed := htree ▸ (by decide +kernel : hub.tree.root.WellNamed)
  have hindexed : s.tree.root.Indexed := htree ▸ (by decide +kernel : hub.tree.root.Indexed)
  have hkey : countKey s.tree 1 = "hub" := htree ▸ by decide +kernel
  have hcount : s.state.visitsUnder (countKey s.tree 1) = 1 := hkey ▸ by decide +kernel
  obtain ⟨c, hc, hvisits⟩ : ∃ c, s.tree.container? 1 = some c ∧ c.flags.visits = true :=
    htree ▸ ⟨_, rfl, rfl⟩
  have hnamed : (s.tree.find (Path.parse "hub")).exactContainer? s.tree = some 1 :=
    htree ▸ by decide +kernel
  have hnumbered : (s.tree.find (Path.parse "0")).exactContainer? s.tree = some 1 :=
    htree ▸ by decide +kernel
  obtain ⟨-, hname, hhost, -⟩ := Flow.readers_of_counts hc hvisits (by decide +kernel) hnamed
  obtain ⟨-, hindex, -, hother⟩ := Flow.readers_of_counts hc hvisits (by decide +kernel) hnumbered
  rw [hcount] at hname hhost hindex
  exact ⟨s, hrun, hnames, hindexed, ⟨hname 2, hhost hkey.symm⟩, hindex 2,
    hother (hkey ▸ by decide) hrun hnames hindexed⟩

end StoryMachine
