import StoryMachine.Proofs.Story.OnceOnly

/-!
# Counting turns

A container that is entered may count a visit, and note the turn. Both are kept under the text of its
path. Within a turn visits are added, and where some are added to a container that counts both, the
turn is noted. Turns are counted by choices and by jumps of the host alone, one at a time and before
anything is entered. So counts that agree stay in agreement.

* `ContentTree.CountsBoth` : containers that count both, and share their counts with such ones only;
* `State.CountsOn` : counts that are gone on with (`StateChange.counts_cases`);
* `State.SameTurn`, `State.kept_sameTurn` : what is done within a turn;
* `State.CountsWell`, `State.kept_countsWell` : counts that agree;
* `State.OneTurn`, `HostCall.oneTurn_of_effects` : what choices and jumps do.
-/

namespace StoryMachine

open State

/-! ## Containers -/

namespace ContentTree

variable {t : ContentTree} {id : NodeId} {c : Container}

/-- The containers that count under a text count both visits and turns, or neither. -/
def CountsAlike (t : ContentTree) (key : String) : Prop :=
  ∀ id c, t.container? id = some c → countKey t id = key → c.flags.visits = c.flags.turns

/-- The container counts visits and turns, and so does every other one that counts under the same
text. -/
structure CountsBoth (t : ContentTree) (id : NodeId) : Prop where
  own : ∃ c, t.container? id = some c ∧ c.flags.visits = true ∧ c.flags.turns = true
  alike : t.CountsAlike (countKey t id)

/-- Where names tell containers apart, no other container counts under the same text. -/
theorem countsBoth_of_wellNamed (hnames : t.root.WellNamed) (hindexed : t.root.Indexed)
    (hc : t.container? id = some c) (hvisits : c.flags.visits = true)
    (hturns : c.flags.turns = true) : t.CountsBoth id where
  own := ⟨c, hc, hvisits, hturns⟩
  alike other k hk hkey := by
    have hlt {i : NodeId} {x : Container} (hx : t.container? i = some x) : i < t.size :=
      lt_size_of_isContainer (by rw [isContainer, hx]; rfl)
    obtain rfl := eq_of_render_path hnames hindexed (hlt hk) (hlt hc) hkey
    cases hc.symm.trans hk
    rw [hvisits, hturns]

end ContentTree

/-! ## Within a turn -/

/-- What steps change in the counts: nothing but a turn, nothing at all, or a container is
entered. -/
theorem StateChange.counts_cases {c : Content} {fx : Effects} {s u : State}
    (h : StateChange c fx s u) :
    (u.visits = s.visits ∧ u.turns = s.turns ∧ u.turn = s.turn) ∨
      (fx.turns = true ∧ u = { s with turn := s.turn + 1 }) ∨
      ∃ id atStart, u = s.enter c.tree id atStart := by
  cases h with
  | enter id atStart => exact .inr (.inr ⟨id, atStart, rfl⟩)
  | turn hfx => exact .inr (.inl ⟨hfx, rfl⟩)
  | «return» h =>
    obtain ⟨output, stack, -, rfl⟩ := popFrame_ok h
    exact .inl ⟨rfl, rfl, rfl⟩
  | markText =>
    obtain ⟨thread, hmark, -⟩ := s.exists_markText_eq
    rw [hmark]
    exact .inl ⟨rfl, rfl, rfl⟩
  | _ => exact .inl ⟨rfl, rfl, rfl⟩

namespace State

variable {t : ContentTree} {s u v : State} {key : String}

/-- The counts of the second state are those of the first one, gone on with: visits are added, and
where there were some, the turn of the second state is noted. -/
structure CountsOn (t : ContentTree) (s u : State) : Prop where
  visits (key : String) : s.visitsUnder key ≤ u.visitsUnder key
  turns (key : String) : u.turns.get? key = s.turns.get? key ∨ u.turns.get? key = some u.turn
  both {key : String} (h : t.CountsAlike key) :
    u.visitsUnder key = s.visitsUnder key ∧ u.turns.get? key = s.turns.get? key ∨
      s.visitsUnder key < u.visitsUnder key ∧ u.turns.get? key = some u.turn

namespace CountsOn

theorem of_eq (hvisits : u.visits = s.visits) (hturns : u.turns = s.turns) : s.CountsOn t u where
  visits key := Int.le_of_eq (by rw [visitsUnder, visitsUnder, hvisits])
  turns key := .inl (by rw [hturns])
  both _ := .inl ⟨by rw [visitsUnder, visitsUnder, hvisits], by rw [hturns]⟩

theorem refl (t : ContentTree) (s : State) : s.CountsOn t s :=
  of_eq rfl rfl

theorem trans (h : s.CountsOn t u) (hv : u.CountsOn t v) (hturn : v.turn = u.turn) :
    s.CountsOn t v where
  visits key := Int.le_trans (h.visits key) (hv.visits key)
  turns key := by
    rcases hv.turns key with hsame | hnoted
    · rw [hsame, hturn]
      exact h.turns key
    · exact .inr hnoted
  both {key} halike := by
    rcases hv.both halike with ⟨hvisits, hsame⟩ | ⟨hmore, hnoted⟩
    · rw [hvisits, hsame, hturn]
      exact h.both halike
    · exact .inr ⟨Int.lt_of_le_of_lt (h.visits key) hmore, hnoted⟩

/-- Entering a container counts on. -/
theorem enter (s : State) (t : ContentTree) (id : NodeId) (atStart : Bool) :
    s.CountsOn t (s.enter t id atStart) where
  visits := s.visitsUnder_enter_le t id atStart
  turns key := by
    unfold State.enter
    split
    · exact .inl rfl
    · split
      · exact .inl rfl
      · dsimp only
        split
        · by_cases hkey : key = countKey t id
          · rw [hkey, SortedMap.get?_insert_self]
            exact .inr rfl
          · rw [SortedMap.get?_insert_of_ne _ _ hkey]
            exact .inl rfl
        · exact .inl rfl
  both {key} halike := by
    unfold State.enter
    split
    · exact .inl ⟨rfl, rfl⟩
    · next c hc =>
      split
      · exact .inl ⟨rfl, rfl⟩
      · unfold visitsUnder
        dsimp only
        by_cases hkey : key = countKey t id
        · rw [← halike id c hc hkey.symm, hkey]
          split
          · rw [SortedMap.get?_insert_self, SortedMap.get?_insert_self, Option.getD_some]
            exact .inr ⟨by omega, rfl⟩
          · exact .inl ⟨rfl, rfl⟩
        · refine .inl ⟨?_, ?_⟩
          · split
            · rw [SortedMap.get?_insert_of_ne _ _ hkey]
            · rfl
          · split
            · rw [SortedMap.get?_insert_of_ne _ _ hkey]
            · rfl

end CountsOn

theorem turn_enter (s : State) (t : ContentTree) (id : NodeId) (atStart : Bool) :
    (s.enter t id atStart).turn = s.turn := by
  obtain ⟨visits, turns, henter⟩ := s.exists_enter_eq t id atStart
  rw [henter]

/-- The turn is the same in both states, and the counts of the first one are gone on with. -/
def SameTurn (s : State) (c : Content) (u : State) : Prop :=
  u.turn = s.turn ∧ s.CountsOn c.tree u

theorem SameTurn.trans {c : Content} (h : s.SameTurn c u) (hv : u.SameTurn c v) : s.SameTurn c v :=
  ⟨hv.1.trans h.1, h.2.trans hv.2 hv.1⟩

theorem SameTurn.of_eq {c : Content} (hvisits : u.visits = s.visits) (hturns : u.turns = s.turns)
    (hturn : u.turn = s.turn) : s.SameTurn c u :=
  ⟨hturn, .of_eq hvisits hturns⟩

end State

theorem StateChange.sameTurn {c : Content} {fx : Effects} {s u : State} (hfx : fx.turns = false)
    (h : StateChange c fx s u) : s.SameTurn c u := by
  rcases h.counts_cases with ⟨hvisits, hturns, hturn⟩ | ⟨hcounts, -⟩ | ⟨id, atStart, rfl⟩
  · exact .of_eq hvisits hturns hturn
  · exact nomatch hfx.symm.trans hcounts
  · exact ⟨s.turn_enter c.tree id atStart, .enter s c.tree id atStart⟩

theorem StateChanges.sameTurn {c : Content} {fx : Effects} {s u : State} (hfx : fx.turns = false)
    (h : StateChanges c fx s u) : s.SameTurn c u := by
  induction h with
  | refl => exact .of_eq rfl rfl rfl
  | tail _ hchange ih => exact ih.trans (hchange.sameTurn hfx)

theorem Changes.sameTurn {c : Content} {fx : Effects} {s u : Story} (hfx : fx.turns = false)
    (h : Changes c fx s u) : s.state.SameTurn c u.state := by
  induction h with
  | refl => exact .of_eq rfl rfl rfl
  | tail _ hchange ih =>
    cases hchange with
    | state hstate => exact ih.trans (hstate.sameTurn hfx)
    | called | wait | unsafeCall => exact ih

/-- From any state on, steps stay in the turn. -/
theorem State.kept_sameTurn (base : State) : State.Kept (fun _ => True) base.SameTurn where
  same h hsame := h.trans (.of_eq hsame.visits hsame.turns hsame.turn)
  frame h _ _ := h.trans (.of_eq rfl rfl rfl)
  drop h _ := h.trans (.of_eq rfl rfl rfl)
  settle h := h.trans (.of_eq rfl rfl rfl)
  change _ hturns h hchange := h.trans (hchange.sameTurn hturns)
  step {s} h _ := h.trans ((Flow.changes_plainStep s).sameTurn rfl)

/-! ## Consistent counts -/

namespace State

variable {t : ContentTree} {s u : State} {key : String} {id : NodeId}

/-- No visits are owed, and the turns noted are not yet to come. A container that counts both has a
turn noted if it has been visited, and only then. -/
structure CountsWell (t : ContentTree) (s : State) : Prop where
  visits (key : String) : 0 ≤ s.visitsUnder key
  turns {key : String} {n : Int} (h : s.turns.get? key = some n) : n ≤ s.turn
  both {key : String} (h : t.CountsAlike key) :
    (s.turns.get? key).isSome = true ↔ 0 < s.visitsUnder key

theorem countsWell_start (t : ContentTree) (seed : Int32) : (start seed).CountsWell t where
  visits _ := Int.le_refl 0
  turns h := nomatch h
  both _ := ⟨nofun, fun h => absurd h (Int.lt_irrefl 0)⟩

namespace CountsWell

/-- Counts that are gone on with, in the same turn or a later one, stay consistent. -/
theorem countsOn (h : s.CountsWell t) (hu : s.CountsOn t u) (hturn : s.turn ≤ u.turn) :
    u.CountsWell t where
  visits key := Int.le_trans (h.visits key) (hu.visits key)
  turns {key n} hnoted := by
    rcases hu.turns key with hsame | hnow
    · exact Int.le_trans (h.turns (hsame.symm.trans hnoted)) hturn
    · exact Int.le_of_eq (Option.some.inj (hnoted.symm.trans hnow))
  both {key} halike := by
    rcases hu.both halike with ⟨hvisits, hsame⟩ | ⟨hmore, hnow⟩
    · rw [hvisits, hsame]
      exact h.both halike
    · rw [hnow]
      exact ⟨fun _ => Int.lt_of_le_of_lt (h.visits key) hmore, fun _ => rfl⟩

theorem sameTurn {c : Content} (h : s.CountsWell c.tree) (hu : s.SameTurn c u) :
    u.CountsWell c.tree :=
  h.countsOn hu.2 (Int.le_of_eq hu.1.symm)

theorem turn (h : s.CountsWell t) : ({ s with turn := s.turn + 1 } : State).CountsWell t :=
  h.countsOn (.of_eq rfl rfl) (Int.le_add_of_nonneg_right (by decide))

end CountsWell

theorem kept_countsWell : State.Kept (fun _ => True) fun c state => state.CountsWell c.tree where
  same h hsame := h.sameTurn (.of_eq hsame.visits hsame.turns hsame.turn)
  frame h _ _ := h.sameTurn (.of_eq rfl rfl rfl)
  drop h _ := h.sameTurn (.of_eq rfl rfl rfl)
  settle h := h.sameTurn (.of_eq rfl rfl rfl)
  change _ hturns h hchange := h.sameTurn (hchange.sameTurn hturns)
  step {s} h _ := h.sameTurn ((Flow.changes_plainStep s).sameTurn rfl)

end State

/-! ## Turns -/

namespace State

variable {c : Content} {s u v : State}

/-- At most one turn is counted, and nothing is counted in front of it. -/
def OneTurn (s : State) (c : Content) (u : State) : Prop :=
  (u.turn = s.turn ∨ u.turn = s.turn + 1) ∧ s.CountsOn c.tree u

theorem SameTurn.oneTurn (h : s.SameTurn c u) : s.OneTurn c u :=
  ⟨.inl h.1, h.2⟩

/-- The counts of visits, the turns noted and the turn are the same. -/
structure EqualCounts (s u : State) : Prop where
  visits : u.visits = s.visits
  turns : u.turns = s.turns
  turn : u.turn = s.turn

theorem EqualCounts.oneTurn (h : s.EqualCounts u) (hv : u.OneTurn c v) : s.OneTurn c v where
  left := h.turn ▸ hv.1
  right :=
    { visits := fun key => by
        have hle := hv.2.visits key
        rwa [visitsUnder, h.visits] at hle
      turns := fun key => h.turns ▸ hv.2.turns key
      both := fun {key} halike => by
        have hvisits : u.visitsUnder key = s.visitsUnder key := by
          rw [visitsUnder, visitsUnder, h.visits]
        rw [← hvisits, ← h.turns]
        exact hv.2.both halike }

theorem counts_warnAll (s : State) (t : ContentTree) (messages : List String) :
    s.EqualCounts (s.warnAll t messages) := by
  obtain ⟨warnings, heq⟩ := s.exists_warnAll_eq t messages
  rw [heq]
  exact ⟨rfl, rfl, rfl⟩

/-- A jump counts at most a turn, before it enters anything. -/
theorem oneTurn_jump (s : State) (c : Content) (p : Path) (countTurn : Bool) :
    s.OneTurn c (s.jump c.tree p countTurn).1 := by
  unfold State.jump
  dsimp only
  split
  · exact ⟨.inl rfl, .of_eq rfl rfl⟩
  · next place warning _ =>
    have hwarned := counts_warnAll { s with choices := [] } c.tree warning.toList
    refine EqualCounts.oneTurn (s := s) ⟨hwarned.visits, hwarned.turns, hwarned.turn⟩ ?_
    cases countTurn with
    | false => exact ⟨.inl rfl, .of_eq rfl rfl⟩
    | true => exact ⟨.inr rfl, .of_eq rfl rfl⟩

end State

namespace Flow

theorem oneTurn_jumpTo (p : Path) (countTurn : Bool) (s : Story) :
    s.state.OneTurn s.content ((jumpTo p countTurn).after s).state := by
  have hjump := s.state.oneTurn_jump s.content p countTurn
  have hrun := jumpTo_eq p countTurn s
  rcases hmoved : s.state.jump s.tree p countTurn with ⟨t, _ | e⟩
  · rw [hmoved] at hrun
    rw [show s.state.jump s.content.tree p countTurn = (t, none) from hmoved] at hjump
    have henter : t.SameTurn s.content (t.enterByJump s.content.tree) :=
      (changes_enterByJump t : StateChanges s.content .still t _).sameTurn rfl
    rw [after_of_ok hrun]
    refine ⟨?_, hjump.2.trans henter.2 henter.1⟩
    rw [show (t.enterByJump s.tree).turn = t.turn from henter.1]
    exact hjump.1
  · rw [hmoved] at hrun
    rw [show s.state.jump s.content.tree p countTurn = (t, some e) from hmoved] at hjump
    rwa [after_of_error hrun]

/-- A computation that leaves the counts alone. -/
def KeepsCounts {α : Type} (x : Flow α) : Prop :=
  ∀ s : Story, s.state.EqualCounts (x.after s).state ∧ (x.after s).content = s.content

theorem keepsCounts_pushArguments (arguments : List Value) :
    KeepsCounts (orFail fun s => s.pushArguments arguments) := by
  intro s
  rw [after_orFail]
  obtain ⟨evaluation, hpush⟩ := exists_pushArguments_eq s.state arguments
  rw [hpush]
  exact ⟨⟨rfl, rfl, rfl⟩, rfl⟩

theorem keepsCounts_resetCallStack : KeepsCounts resetCallStack := by
  intro s
  exact holds_whenIdle (I := fun u => s.state.EqualCounts u.state ∧ u.content = s.content)
    ⟨⟨rfl, rfl, rfl⟩, rfl⟩ fun _ => ⟨⟨rfl, rfl, rfl⟩, rfl⟩

/-- What leaves the counts alone may stand in front of what takes a turn. -/
theorem oneTurn_bind {α β : Type} {x : Flow α} {k : α → Flow β} (hx : KeepsCounts x)
    (hk : ∀ (a : α) (s : Story), s.state.OneTurn s.content ((k a).after s).state) (s : Story) :
    s.state.OneTurn s.content ((x >>= k).after s).state := by
  obtain ⟨hsame, hcontent⟩ := hx s
  cases hrun : x s with
  | error e u =>
    rw [after_of_error hrun] at hsame
    rw [after_bind_error hrun]
    exact hsame.oneTurn ⟨.inl rfl, .refl _ _⟩
  | ok a u =>
    rw [after_of_ok hrun] at hsame hcontent
    rw [after_bind_ok hrun]
    exact hsame.oneTurn (hcontent ▸ hk a u)

/-- Choices and jumps take at most one turn, if they are not refused. -/
theorem oneTurn_choose (index : Nat) (s : Story) :
    (choose index).after s = s ∨
      s.Idle ∧ s.state.OneTurn s.content ((choose index).after s).state := by
  refine holds_whenIdle (I := fun u => u = s ∨ s.Idle ∧ s.state.OneTurn s.content u.state)
    (.inl rfl) fun hidle => ?_
  rw [after_bind_ok (get_ok s)]
  dsimp only
  split
  · exact .inl rfl
  · next o _ =>
    have hresume : KeepsCounts (resumeThread o.thread) := fun _ => ⟨⟨rfl, rfl, rfl⟩, rfl⟩
    exact .inr ⟨hidle, oneTurn_bind hresume (fun _ => oneTurn_jumpTo o.target true) s⟩

theorem oneTurn_choosePath (path : String) (reset : Bool) (arguments : List Value) (s : Story) :
    (choosePath path reset arguments).after s = s ∨
      s.Idle ∧ s.state.OneTurn s.content ((choosePath path reset arguments).after s).state := by
  refine holds_whenIdle (I := fun u => u = s ∨ s.Idle ∧ s.state.OneTurn s.content u.state)
    (.inl rfl) fun hidle => .inr ⟨hidle, ?_⟩
  have hjump (s : Story) : s.state.OneTurn s.content
      (after (do
        orFail fun s => s.pushArguments arguments
        jumpTo (Path.parse path) true) s).state :=
    oneTurn_bind (keepsCounts_pushArguments arguments)
      (fun _ => oneTurn_jumpTo (Path.parse path) true) s
  have hrefuse : KeepsCounts (refuseInFunction path) := fun s => by
    rw [after_refuseInFunction]
    exact ⟨⟨rfl, rfl, rfl⟩, rfl⟩
  cases reset with
  | true => exact oneTurn_bind keepsCounts_resetCallStack (fun _ => hjump) s
  | false => exact oneTurn_bind hrefuse (fun _ => hjump) s

end Flow

namespace HostCall

/-- A call that may count a turn is refused, or takes at most one turn between lines. -/
theorem oneTurn_of_effects {call : HostCall} (h : call.effects.turns = true) (s : Story) :
    (call.after s = s ∨ s.Idle ∧ s.state.OneTurn s.content (call.after s).state) ∧
      Changes s.content .silent s (call.after s) := by
  cases call with
  | choose index => exact ⟨Flow.oneTurn_choose index s, Flow.changes_choose index s⟩
  | choosePath path reset arguments =>
    exact ⟨Flow.oneTurn_choosePath path reset arguments s,
      Flow.changes_choosePath path reset arguments s⟩
  | _ => cases h

end HostCall

end StoryMachine
