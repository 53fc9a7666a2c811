import Mathlib.Logic.Function.Basic
import Mathlib.Logic.Relation
import ChainBoard.Proofs.Explorer.Loader

/-!
# Loading both feeds at once

The two feeds of a board are loaded at the same time. Each loader goes its own way: it sends its
request, receives the reply, reads the report, waits until it may hold the board, puts its entries
on the board one by one, and settles. Nothing says in which order the steps of the two loaders
follow each other. The outcome is nevertheless the same in all orders, because only one loader at a
time holds the board and because the two fill different slots; and what one loader does is a
function of its own reply.

The invariant says of each loader what it has brought so far in terms of loading its feed alone, and
of the board that its entries came in two batches.

## Main definitions

* `Task`: where a loader stands
* `Joint`, `Joint.Step`, `Joint.Reaches`: both loaders at work, and their steps in any order
* `Joint.Inv`: the invariant

## Main results

* `Joint.inv_step`, `Joint.inv_of_reaches`: the invariant holds along every run
* `Joint.exists_settled`: no run gets stuck before both loaders have settled
* `Joint.interleaving_independent`: all runs end alike, each loader depending on its own reply only
-/

namespace ChainBoard

/-- Where a loader stands. -/
inductive Task where
  /-- Nothing was sent yet. -/
  | pending
  /-- The request was sent. -/
  | asked
  /-- The text of the answer came. -/
  | answered (text : String)
  /-- The report was read, and the loader waits for the board. -/
  | waiting (entries : Entries)
  /-- The loader holds the board and has these entries still to put there. -/
  | writing (entries : Entries)
  /-- The loader is done. -/
  | settled (result : Except Fault Unit)

/-- Two loaders at work on one board: where each stands, which of them holds the board, the board,
and what was put there so far, by whom. -/
structure Joint where
  task : Feed → Task
  holder : Option Feed
  board : Board
  puts : List (Feed × Slot × Content)

namespace Joint

/-- Nothing was done yet. -/
def start (board : Board) : Joint :=
  ⟨fun _ => .pending, none, board, []⟩

/-- The loader of a feed goes on to another task. -/
def moveTo (joint : Joint) (feed : Feed) (task : Task) : Joint :=
  { joint with task := Function.update joint.task feed task }

/-- What the loader of a feed has put on the board. -/
def putsBy (joint : Joint) (feed : Feed) : List (Feed × Slot × Content) :=
  joint.puts.filter (·.1 = feed)

/-- Both loaders are done. -/
def IsSettled (joint : Joint) : Prop :=
  ∀ feed, ∃ result, joint.task feed = .settled result

/-- The warnings about a loader: none before it is done. -/
def warningsOf (joint : Joint) (feed : Feed) : List Log.Entry :=
  match joint.task feed with
  | .settled result => Client.warning feed result
  | _ => []

/-- The warnings of both loaders, that about the tip first. -/
def warnings (joint : Joint) : List Log.Entry :=
  joint.warningsOf .tip ++ joint.warningsOf .coins

/-- One step of the loader of a feed. -/
inductive Step (client : Client) (network : Http.Network) (unit : CoinUnit) (feed : Feed)
    (joint : Joint) : Joint → Prop
  /-- The request cannot be sent. -/
  | unsent : joint.task feed = .pending → client.canSend network = false →
      Step client network unit feed joint (joint.moveTo feed
        (.settled (.error (.request (network.complaint (client.request feed))))))
  /-- The request is sent. -/
  | send : joint.task feed = .pending → client.canSend network = true →
      Step client network unit feed joint (joint.moveTo feed .asked)
  /-- There is no complete reply. -/
  | lost {fault : Fault} : joint.task feed = .asked →
      (Client.receive network (client.request feed)).text = .error fault →
      Step client network unit feed joint (joint.moveTo feed (.settled (.error fault)))
  /-- The reply is of no use. -/
  | skip : joint.task feed = .asked →
      (Client.receive network (client.request feed)).text = .ok none →
      Step client network unit feed joint (joint.moveTo feed (.settled (.ok ())))
  /-- The reply has a text. -/
  | receive {text : String} : joint.task feed = .asked →
      (Client.receive network (client.request feed)).text = .ok (some text) →
      Step client network unit feed joint (joint.moveTo feed (.answered text))
  /-- The text holds no report. -/
  | refuse {text : String} {refusal : Json.Refusal} : joint.task feed = .answered text →
      feed.read unit text = .error refusal →
      Step client network unit feed joint
        (joint.moveTo feed (.settled (.error (.malformed refusal))))
  /-- The text holds a report. -/
  | read {text summary : String} {entries : Entries} : joint.task feed = .answered text →
      feed.read unit text = .ok (summary, entries) →
      Step client network unit feed joint (joint.moveTo feed (.waiting entries))
  /-- Nobody holds the board, and the loader takes it. -/
  | lock {entries : Entries} : joint.task feed = .waiting entries → joint.holder = none →
      Step client network unit feed joint
        { joint.moveTo feed (.writing entries) with holder := some feed }
  /-- The next entry is put on the board. -/
  | put {entry : Slot × Content} {entries : Entries} :
      joint.task feed = .writing (entry :: entries) →
      Step client network unit feed joint
        { joint.moveTo feed (.writing entries) with
          board := joint.board.put entry.1 entry.2
          puts := joint.puts ++ [(feed, entry)] }
  /-- All entries are on the board, which the loader gives back. -/
  | settle : joint.task feed = .writing [] →
      Step client network unit feed joint
        { joint.moveTo feed (.settled (.ok ())) with holder := none }

/-- Steps of both loaders, in any order. -/
def Reaches (client : Client) (network : Http.Network) (unit : CoinUnit) : Joint → Joint → Prop :=
  Relation.ReflTransGen fun joint joint' => ∃ feed, Step client network unit feed joint joint'

/-! ## The invariant -/

section

variable {client : Client} {network : Http.Network} {unit : CoinUnit} {board : Board}
  {joint joint' : Joint} {feed : Feed}

/-- A loader that has put `done` on the board and stands at a task is on the way of loading its feed
alone. -/
def OnWay (client : Client) (network : Http.Network) (unit : CoinUnit) (feed : Feed)
    (done : Entries) : Task → Prop
  | .pending => done = []
  | .asked => done = [] ∧ client.canSend network = true
  | .answered text => done = [] ∧ (client.fetch network feed).text = .ok (some text)
  | .waiting entries => done = [] ∧ (client.load network unit feed).entries = entries ∧
      (client.load network unit feed).result = .ok ()
  | .writing entries => (client.load network unit feed).entries = done ++ entries ∧
      (client.load network unit feed).result = .ok ()
  | .settled result => (client.load network unit feed).entries = done ∧
      (client.load network unit feed).result = result

/-- The other feed. -/
def other : Feed → Feed
  | .tip => .coins
  | .coins => .tip

/-- The entries on the board came in two batches: a loader that has put anything behind entries of
the other one has found the other one done. -/
def InBatches (joint : Joint) : Prop :=
  ∃ feed, joint.puts = joint.putsBy feed ++ joint.putsBy (other feed) ∧
    (joint.putsBy (other feed) = [] ∨ ∃ result, joint.task feed = .settled result)

/-- The invariant of two loaders at work on a board. -/
structure Inv (client : Client) (network : Http.Network) (unit : CoinUnit) (board : Board)
    (joint : Joint) : Prop where
  onWay : ∀ feed, OnWay client network unit feed ((joint.putsBy feed).map (·.2)) (joint.task feed)
  holder : ∀ feed, joint.holder = some feed ↔ ∃ entries, joint.task feed = .writing entries
  board : joint.board = board.putAll (joint.puts.map (·.2))
  batches : joint.InBatches

/-! ### What a step leaves alone -/

@[simp] theorem task_moveTo_self (joint : Joint) (feed : Feed) (task : Task) :
    (joint.moveTo feed task).task feed = task := by
  simp [moveTo]

@[simp] theorem task_moveTo_of_ne (joint : Joint) {feed feed' : Feed} (h : feed' ≠ feed)
    (task : Task) : (joint.moveTo feed task).task feed' = joint.task feed' := by
  simp [moveTo, h]

@[simp] theorem putsBy_moveTo (joint : Joint) (feed : Feed) (task : Task) (feed' : Feed) :
    (joint.moveTo feed task).putsBy feed' = joint.putsBy feed' := rfl

/-- A step does not touch the other loader. -/
theorem task_step_of_ne (h : Step client network unit feed joint joint') {feed' : Feed}
    (hne : feed' ≠ feed) : joint'.task feed' = joint.task feed' := by
  cases h <;> exact task_moveTo_of_ne joint hne _

/-- Only a loader that is not done takes a step. -/
theorem not_settled_of_step (h : Step client network unit feed joint joint')
    (result : Except Fault Unit) : joint.task feed ≠ .settled result := by
  cases h <;> simp_all

/-- A step puts nothing on the board, or the next entry of the loader that takes it. -/
theorem puts_step (h : Step client network unit feed joint joint') :
    (joint'.puts = joint.puts ∧ joint'.board = joint.board) ∨
      ∃ entry entries, joint.task feed = .writing (entry :: entries) ∧
        joint'.task feed = .writing entries ∧ joint'.holder = joint.holder ∧
        joint'.puts = joint.puts ++ [(feed, entry)] ∧
        joint'.board = joint.board.put entry.1 entry.2 := by
  cases h
  case put entry entries ht =>
    exact .inr ⟨entry, entries, ht, task_moveTo_self joint feed _, rfl, rfl, rfl⟩
  all_goals exact .inl ⟨rfl, rfl⟩

theorem putsBy_congr (h : joint'.puts = joint.puts) (feed : Feed) :
    joint'.putsBy feed = joint.putsBy feed := by
  rw [putsBy, putsBy, h]

theorem putsBy_concat_self {entry : Slot × Content}
    (h : joint'.puts = joint.puts ++ [(feed, entry)]) :
    joint'.putsBy feed = joint.putsBy feed ++ [(feed, entry)] := by
  simp [putsBy, h]

theorem putsBy_concat_of_ne {entry : Slot × Content} {feed' : Feed}
    (h : joint'.puts = joint.puts ++ [(feed, entry)]) (hne : feed' ≠ feed) :
    joint'.putsBy feed' = joint.putsBy feed' := by
  simp [putsBy, h, hne.symm]

/-! ### What a step preserves -/

/-- The loader that takes a step stays on the way of loading its feed alone. -/
theorem onWay_step_self (h : Step client network unit feed joint joint')
    (hw : OnWay client network unit feed ((joint.putsBy feed).map (·.2)) (joint.task feed)) :
    OnWay client network unit feed ((joint'.putsBy feed).map (·.2)) (joint'.task feed) := by
  -- One case for each kind of step: `hw` says where the loader stood, in terms of its load alone.
  cases h with
  | unsent ht hs =>
    rw [ht] at hw
    rw [task_moveTo_self, putsBy_moveTo, hw]
    exact Client.load_of_fetch_error (by rw [Client.fetch_of_not_canSend hs])
  | send ht hs =>
    rw [ht] at hw
    rw [task_moveTo_self]
    exact ⟨hw, hs⟩
  | lost ht hr =>
    rw [ht] at hw
    rw [task_moveTo_self, putsBy_moveTo, hw.1]
    exact Client.load_of_fetch_error (by rw [Client.fetch_of_canSend hw.2, hr])
  | skip ht hr =>
    rw [ht] at hw
    rw [task_moveTo_self, putsBy_moveTo, hw.1]
    exact Client.load_of_fetch_none (by rw [Client.fetch_of_canSend hw.2, hr])
  | receive ht hr =>
    rw [ht] at hw
    rw [task_moveTo_self]
    exact ⟨hw.1, by rw [Client.fetch_of_canSend hw.2, hr]⟩
  | refuse ht hr =>
    rw [ht] at hw
    rw [task_moveTo_self, putsBy_moveTo, hw.1]
    exact Client.load_of_read_error hw.2 hr
  | read ht hr =>
    rw [ht] at hw
    rw [task_moveTo_self]
    exact ⟨hw.1, Client.load_of_read_ok hw.2 hr⟩
  | lock ht hn =>
    rw [ht] at hw
    obtain ⟨hd, he, hr⟩ := hw
    show OnWay client network unit feed ((joint.putsBy feed).map (·.2))
      ((joint.moveTo feed _).task feed)
    rw [task_moveTo_self, hd]
    exact ⟨he, hr⟩
  | @put entry entries ht =>
    -- the entry moves from those still to be put to those already there
    rw [ht] at hw
    obtain ⟨he, hr⟩ := hw
    show OnWay client network unit feed _ ((joint.moveTo feed _).task feed)
    rw [task_moveTo_self, putsBy_concat_self rfl]
    exact ⟨by simp [he], hr⟩
  | settle ht =>
    rw [ht] at hw
    obtain ⟨he, hr⟩ := hw
    show OnWay client network unit feed ((joint.putsBy feed).map (·.2))
      ((joint.moveTo feed _).task feed)
    rw [task_moveTo_self]
    exact ⟨by rw [he, List.append_nil], hr⟩

/-- A step does not touch what the other loader has put on the board. -/
theorem putsBy_step_of_ne (h : Step client network unit feed joint joint') {feed' : Feed}
    (hne : feed' ≠ feed) : joint'.putsBy feed' = joint.putsBy feed' := by
  rcases puts_step h with ⟨hp, -⟩ | ⟨entry, entries, -, -, -, hp, -⟩
  · exact putsBy_congr hp feed'
  · exact putsBy_concat_of_ne hp hne

/-- The loader that writes is always the one that holds the board. -/
theorem holder_step (h : Step client network unit feed joint joint')
    (hh : ∀ f, joint.holder = some f ↔ ∃ entries, joint.task f = .writing entries) (f : Feed) :
    joint'.holder = some f ↔ ∃ entries, joint'.task f = .writing entries := by
  have hfeed := hh feed
  by_cases hne : f = feed
  · subst hne
    cases h <;> simp_all [moveTo]
  · -- the other loader stands where it stood, and the holder changes only by taking and giving back
    rw [task_step_of_ne h hne, ← hh f]
    cases h with
    | lock ht hn => simp [hn, Ne.symm hne]
    | settle ht =>
      rw [hfeed.2 ⟨_, ht⟩]
      simp [Ne.symm hne]
    | _ => exact Iff.rfl

theorem other_ne (feed : Feed) : other feed ≠ feed := by
  cases feed <;> decide

@[simp] theorem other_other (feed : Feed) : other (other feed) = feed := by
  cases feed <;> rfl

theorem eq_or_eq_other (feed feed' : Feed) : feed' = feed ∨ feed' = other feed := by
  cases feed <;> cases feed' <;> decide

/-- A loader that has not taken the board yet has put nothing there. -/
theorem putsBy_eq_nil_or (hw : ∀ f, OnWay client network unit f ((joint.putsBy f).map (·.2))
      (joint.task f)) (feed : Feed) :
    joint.putsBy feed = [] ∨ (∃ entries, joint.task feed = .writing entries) ∨
      ∃ result, joint.task feed = .settled result := by
  have h := hw feed
  cases ht : joint.task feed with
  | writing entries => exact .inr (.inl ⟨entries, rfl⟩)
  | settled result => exact .inr (.inr ⟨result, rfl⟩)
  | pending => rw [ht] at h; exact .inl (List.map_eq_nil_iff.1 h)
  | _ => rw [ht] at h; exact .inl (List.map_eq_nil_iff.1 h.1)

/-- The batches stay apart: an entry behind those of the other loader is put there only when the
other loader is done, because until then it holds the board or has put nothing there. -/
theorem inBatches_step (h : Step client network unit feed joint joint')
    (hi : Inv client network unit board joint) : joint'.InBatches := by
  obtain ⟨first, hputs, hlast⟩ := hi.batches
  rcases puts_step h with ⟨hp, -⟩ | ⟨entry, entries, ht, -, -, hp, -⟩
  · -- nothing was put: the batches are the same, and a loader that is done stays so
    refine ⟨first, by simp only [putsBy_congr hp, hp, ← hputs], ?_⟩
    rcases hlast with hnil | ⟨result, hr⟩
    · exact .inl ((putsBy_congr hp _).trans hnil)
    · have hne : first ≠ feed := by
        rintro rfl
        exact not_settled_of_step h result hr
      exact .inr ⟨result, (task_step_of_ne h hne).trans hr⟩
  · rcases eq_or_eq_other first feed with rfl | rfl
    · -- the first batch grows, so the second one is still empty
      have hnil : joint.putsBy (other feed) = [] :=
        hlast.resolve_right fun ⟨result, hr⟩ => by simp [ht] at hr
      refine ⟨feed, ?_, .inl ((putsBy_concat_of_ne hp (other_ne feed)).trans hnil)⟩
      rw [putsBy_concat_self hp, putsBy_concat_of_ne hp (other_ne feed), hp, hputs, hnil]
      simp
    · have hne : first ≠ other first := (other_ne first).symm
      rcases putsBy_eq_nil_or hi.onWay first with hnil | ⟨entries', hw⟩ | ⟨result, hr⟩
      · -- the first batch is empty, so the batches may be counted the other way round
        refine ⟨other first, ?_, .inl ?_⟩
        · rw [other_other, putsBy_concat_self hp, putsBy_concat_of_ne hp hne, hp, hputs, hnil]
          simp
        · rw [other_other, putsBy_concat_of_ne hp hne, hnil]
      · -- two loaders cannot hold the board at once
        have hholder := (hi.holder first).2 ⟨entries', hw⟩
        rw [(hi.holder (other first)).2 ⟨_, ht⟩] at hholder
        exact absurd (Option.some.inj hholder) hne.symm
      · -- the first loader is done, so the second batch may grow
        refine ⟨first, ?_, .inr ⟨result, (task_step_of_ne h hne).trans hr⟩⟩
        rw [putsBy_concat_self hp, putsBy_concat_of_ne hp hne, hp, hputs, List.append_assoc]

/-- The invariant holds before the first step. -/
theorem inv_start (board : Board) : Inv client network unit board (start board) where
  onWay _ := rfl
  holder _ := by simp [start]
  board := rfl
  batches := ⟨.tip, rfl, .inl rfl⟩

/-- The step lemma. -/
theorem inv_step (h : Step client network unit feed joint joint')
    (hi : Inv client network unit board joint) : Inv client network unit board joint' where
  onWay f := by
    by_cases hne : f = feed
    · exact hne ▸ onWay_step_self h (hi.onWay feed)
    · rw [putsBy_step_of_ne h hne, task_step_of_ne h hne]
      exact hi.onWay f
  holder := holder_step h hi.holder
  board := by
    rcases puts_step h with ⟨hp, hb⟩ | ⟨entry, entries, -, -, -, hp, hb⟩
    · rw [hb, hp, hi.board]
    · rw [hb, hp, hi.board, List.map_append, List.map_singleton, Board.putAll_concat]
  batches := inBatches_step h hi

/-- The run lemma. -/
theorem inv_of_reaches (h : Reaches client network unit (start board) joint) :
    Inv client network unit board joint := by
  induction h with
  | refl => exact inv_start board
  | tail _ hs ih =>
    obtain ⟨feed, hs⟩ := hs
    exact inv_step hs ih

/-! ## Runs do not get stuck -/

/-- How many steps a loader has still to take, at most. -/
def rank : Task → Nat
  | .pending => 12
  | .asked => 11
  | .answered _ => 10
  | .waiting entries => entries.length + 2
  | .writing entries => entries.length + 1
  | .settled _ => 0

/-- A report has at most six contents. -/
theorem length_le_of_read {text summary : String} {entries : Entries}
    (h : feed.read unit text = .ok (summary, entries)) : entries.length ≤ 6 := by
  rw [Feed.read_eq] at h
  obtain ⟨report, -, he⟩ := Json.map_eq_ok_iff.1 h
  obtain rfl : feed.entries unit report = entries := congrArg Prod.snd he
  have hlen := congrArg List.length (feed.map_fst_entries unit report)
  rw [List.length_map] at hlen
  rw [hlen]
  cases feed <;> decide

/-- Each step brings its loader closer to its end. -/
theorem rank_step (h : Step client network unit feed joint joint') :
    rank (joint'.task feed) < rank (joint.task feed) := by
  cases h with
  | read ht hr =>
    have := length_le_of_read hr
    rw [ht, task_moveTo_self]
    simp only [rank]
    omega
  | lock ht | put ht | settle ht =>
    change rank ((joint.moveTo feed _).task feed) < _
    rw [ht, task_moveTo_self]
    simp [rank]
  | unsent ht | send ht | lost ht | skip ht | receive ht | refuse ht =>
    rw [ht, task_moveTo_self]
    simp [rank]

/-- A loader that holds the board can always go on. -/
theorem exists_step_of_writing {entries : Entries} (ht : joint.task feed = .writing entries) :
    ∃ joint', Step client network unit feed joint joint' := by
  cases entries with
  | nil => exact ⟨_, .settle ht⟩
  | cons entry entries => exact ⟨_, .put ht⟩

/-- As long as a loader is not done, some loader can go on: this one, or the one that holds the
board. -/
theorem exists_step (hi : Inv client network unit board joint)
    (hn : ∀ result, joint.task feed ≠ .settled result) :
    ∃ feed' joint', Step client network unit feed' joint joint' := by
  cases ht : joint.task feed with
  | pending =>
    cases hs : client.canSend network with
    | false => exact ⟨feed, _, .unsent ht hs⟩
    | true => exact ⟨feed, _, .send ht hs⟩
  | asked =>
    cases hr : (Client.receive network (client.request feed)).text with
    | error fault => exact ⟨feed, _, .lost ht hr⟩
    | ok text? =>
      cases text? with
      | none => exact ⟨feed, _, .skip ht hr⟩
      | some text => exact ⟨feed, _, .receive ht hr⟩
  | answered text =>
    cases hr : feed.read unit text with
    | error refusal => exact ⟨feed, _, .refuse ht hr⟩
    | ok contents => exact ⟨feed, _, .read ht hr⟩
  | waiting entries =>
    cases hh : joint.holder with
    | none => exact ⟨feed, _, .lock ht hh⟩
    | some feed' =>
      -- the loader that holds the board never waits for anything
      obtain ⟨entries', hw⟩ := (hi.holder feed').1 hh
      exact ⟨feed', exists_step_of_writing hw⟩
  | writing entries => exact ⟨feed, exists_step_of_writing ht⟩
  | settled result => exact absurd ht (hn result)

/-- A run can always be continued until both loaders are done, and it cannot be continued for ever,
because each step lowers the rank of its loader. -/
theorem exists_settled (hi : Inv client network unit board joint) :
    ∃ final, Reaches client network unit joint final ∧ final.IsSettled := by
  -- Induction on the sum of both ranks: a step lowers one and leaves the other.
  induction hr : rank (joint.task .tip) + rank (joint.task .coins) using Nat.strongRecOn
    generalizing joint with
  | ind n ih =>
    by_cases hs : joint.IsSettled
    · exact ⟨joint, .refl, hs⟩
    · obtain ⟨feed, hfeed⟩ := not_forall.1 hs
      obtain ⟨feed', joint', hstep⟩ := exists_step hi (not_exists.1 hfeed)
      have hlt := rank_step hstep
      have hother := task_step_of_ne hstep (other_ne feed')
      have hsum : rank (joint'.task .tip) + rank (joint'.task .coins) < n := by
        cases feed' <;> simp only [other] at hother <;> rw [hother] <;> omega
      obtain ⟨final, hreach, hfinal⟩ := ih _ hsum (inv_step hstep hi) rfl
      exact ⟨final, .head ⟨feed', hstep⟩ hreach, hfinal⟩

/-! ## The end of a run -/

/-- A loader that is done has put the entries of loading its feed alone, and has its result. -/
theorem settled_eq (hi : Inv client network unit board joint) (hs : joint.IsSettled)
    (feed : Feed) :
    (joint.putsBy feed).map (·.2) = (client.load network unit feed).entries ∧
      joint.task feed = .settled (client.load network unit feed).result := by
  obtain ⟨result, hr⟩ := hs feed
  have hw := hi.onWay feed
  rw [hr] at hw
  exact ⟨hw.1.symm, by rw [hr, hw.2]⟩

/-- What a loader has put on the board is known from its entries. -/
theorem putsBy_eq_map (joint : Joint) (feed : Feed) :
    joint.putsBy feed = ((joint.putsBy feed).map (·.2)).map fun entry => (feed, entry) := by
  have hid : ∀ put ∈ joint.putsBy feed, (feed, put.2) = put := by
    rintro ⟨feed', entry⟩ h
    have hf : feed' = feed := by simpa using (List.mem_filter.1 h).2
    rw [hf]
  rw [List.map_map]
  exact ((List.map_congr_left hid).trans (List.map_id' _)).symm

/-- When both loaders are done, the board is the one after loading the feeds one after the other. -/
theorem board_of_settled (hi : Inv client network unit board joint) (hs : joint.IsSettled) :
    joint.board =
      (board.after (client.load network unit .tip)).after (client.load network unit .coins) := by
  obtain ⟨first, hputs, -⟩ := hi.batches
  rw [hi.board, hputs, List.map_append, Board.putAll_append, (settled_eq hi hs _).1,
    (settled_eq hi hs _).1]
  -- The batches came in one order or the other, and the two orders give the same board.
  cases first with
  | tip => rfl
  | coins => exact (Board.after_comm board client network unit).symm

/-- When both loaders are done, the slots of a feed are those after loading the feed alone. -/
theorem agreesOn_of_settled (hi : Inv client network unit board joint) (hs : joint.IsSettled)
    (feed : Feed) : joint.board.AgreesOn feed (board.after (client.load network unit feed)) := by
  rw [board_of_settled hi hs, ← Board.after_loadBoard]
  exact Board.agreesOn_after board client network unit feed

/-- When both loaders are done, each is warned about as after loading its feed alone. -/
theorem warningsOf_of_settled (hi : Inv client network unit board joint) (hs : joint.IsSettled)
    (feed : Feed) :
    joint.warningsOf feed = Client.warning feed (client.load network unit feed).result := by
  rw [warningsOf, (settled_eq hi hs feed).2]

end

/-- **Loading both feeds at once is independent of the order of steps.** Whatever the loaders have
done, they can go on until both are done, and the entries of one never stand between those of the
other. When they are done, the board is the one after loading the tip and then the coins, which is
also the one after the coins and then the tip, and the warnings are those of the two loads, that
about the tip first. In two runs on networks that treat the request of one feed alike, in what they
reply and in what there is to complain about, the loader of that feed ends with the same outcome,
puts the same entries, is warned about alike, and leaves the same in its slots. -/
theorem interleaving_independent (client : Client) (network : Http.Network) (unit : CoinUnit)
    (board : Board) :
    (∀ joint, Reaches client network unit (start board) joint →
      (∃ final, Reaches client network unit joint final ∧ final.IsSettled) ∧
      (∃ first, joint.puts = joint.putsBy first ++ joint.putsBy (other first)) ∧
      (joint.IsSettled →
        joint.board = (board.after (client.load network unit .tip)).after
          (client.load network unit .coins) ∧
        joint.board = (board.after (client.load network unit .coins)).after
          (client.load network unit .tip) ∧
        joint.board = board.after (client.loadBoard network unit) ∧
        joint.warnings = Client.warning .tip (client.load network unit .tip).result ++
          Client.warning .coins (client.load network unit .coins).result)) ∧
    ∀ (feed : Feed) (network' : Http.Network) (joint joint' : Joint),
      network.listens client.address = network'.listens client.address →
      network.reply (client.request feed) = network'.reply (client.request feed) →
      network.complaint (client.request feed) = network'.complaint (client.request feed) →
      Reaches client network unit (start board) joint → joint.IsSettled →
      Reaches client network' unit (start board) joint' → joint'.IsSettled →
        joint.task feed = joint'.task feed ∧ joint.putsBy feed = joint'.putsBy feed ∧
          joint.warningsOf feed = joint'.warningsOf feed ∧
          joint.board.AgreesOn feed joint'.board := by
  refine ⟨?_, ?_⟩
  · intro joint hreach
    have hi := inv_of_reaches hreach
    refine ⟨exists_settled hi, ?_, ?_⟩
    · obtain ⟨first, hputs, -⟩ := hi.batches
      exact ⟨first, hputs⟩
    · intro hs
      have hb := board_of_settled hi hs
      refine ⟨hb, ?_, ?_, ?_⟩
      · rw [hb, Board.after_comm]
      · rw [hb, Board.after_loadBoard]
      · rw [warnings, warningsOf_of_settled hi hs, warningsOf_of_settled hi hs]
  · intro feed network' joint joint' hl hr hc hreach hs hreach' hs'
    have hi := inv_of_reaches hreach
    have hi' := inv_of_reaches hreach'
    have hload := Client.load_congr unit hl hr hc
    refine ⟨?_, ?_, ?_, ?_⟩
    · rw [(settled_eq hi hs feed).2, (settled_eq hi' hs' feed).2, hload]
    · rw [putsBy_eq_map, putsBy_eq_map joint', (settled_eq hi hs feed).1,
        (settled_eq hi' hs' feed).1, hload]
    · rw [warningsOf_of_settled hi hs, warningsOf_of_settled hi' hs', hload]
    · intro slot hslot
      rw [agreesOn_of_settled hi hs feed slot hslot, agreesOn_of_settled hi' hs' feed slot hslot,
        hload]

end Joint

end ChainBoard
