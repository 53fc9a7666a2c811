import ChainBoard.Proofs.Explorer.Loader

/-!
# A load ends in one of four ways

A load gives all contents of a report, or it is over without contents because the answer was of no
use, or it fails without contents because there was no complete answer or because the answer holds
no report. The four ways exclude each other, and each has its own cause on the network. Whatever
takes the contents in, be it a board or not, is left as it was in all ways but the first.

## Main definitions

* `Loaded.Ending`: the four ways
* `Loaded.EndsAs`: what a load brings in each of them
* `Client.Causes`: what leads to each of them
* `Loaded.fill`: takes the contents into a document

## Main results

* `Loaded.EndsAs.unique`, `Client.endsAs_of_causes`, `Client.exists_causes`: the ways exclude each
  other, each cause leads to its way, and there is always a cause
* `Client.load_all_or_nothing`: each load ends in one way, which tells its cause
-/

namespace ChainBoard

namespace Loaded

/-- The ways in which a load can end. -/
inductive Ending where
  /-- All contents of a report are given. -/
  | filled
  /-- The answer is of no use. -/
  | skipped
  /-- There is no complete answer, but a complaint. -/
  | unanswered (complaint : String)
  /-- The answer holds no report. -/
  | malformed (refusal : Json.Refusal)
  deriving DecidableEq, Repr

/-- What a load of a feed brings when it ends in some way: how it went, and the slots for which it
has contents. -/
def EndsAs (loaded : Loaded) (feed : Feed) : Ending → Prop
  | .filled => loaded.result = .ok () ∧ loaded.entries.map (·.1) = feed.slots
  | .skipped => loaded.result = .ok () ∧ loaded.entries = []
  | .unanswered complaint => loaded.result = .error (.request complaint) ∧ loaded.entries = []
  | .malformed refusal => loaded.result = .error (.malformed refusal) ∧ loaded.entries = []

/-- Takes the contents into a document, one after the other. -/
def fill {Document : Type} (loaded : Loaded) (put : Document → Slot → Content → Document)
    (document : Document) : Document :=
  loaded.entries.foldl (fun document entry => put document entry.1 entry.2) document

variable {loaded : Loaded} {feed : Feed} {ending ending' : Ending}

/-- A board is such a document. -/
theorem fill_board (loaded : Loaded) (board : Board) :
    loaded.fill Board.put board = board.after loaded := rfl

/-- A load does not end in two ways. -/
theorem EndsAs.unique (h : loaded.EndsAs feed ending) (h' : loaded.EndsAs feed ending') :
    ending = ending' := by
  -- slots to fill are what tells a filled board from a skipped answer
  have hslots : feed.slots ≠ [] := by cases feed <;> decide
  cases ending <;> cases ending' <;> simp_all [EndsAs]

/-- Only one way gives contents. -/
theorem EndsAs.entries_eq_nil (h : loaded.EndsAs feed ending) (hne : ending ≠ .filled) :
    loaded.entries = [] := by
  cases ending with
  | filled => exact absurd rfl hne
  | skipped => exact h.2
  | unanswered complaint => exact h.2
  | malformed refusal => exact h.2

end Loaded

namespace Client

variable {client : Client} {network : Http.Network} {feed : Feed}

/-- What leads to each way of ending. -/
def Causes (client : Client) (network : Http.Network) (feed : Feed) :
    Loaded.Ending → Prop
  | .filled => ∃ report, client.GetsReport network feed report
  | .skipped => ∃ code, client.IsRefused network feed code
  | .unanswered complaint => client.GetsNothing network feed ∧
      network.complaint (client.request feed) = complaint
  | .malformed refusal => client.GetsMalformed network feed refusal

/-- Each cause leads to its way of ending. -/
theorem endsAs_of_causes (unit : CoinUnit) {ending : Loaded.Ending}
    (h : client.Causes network feed ending) :
    (client.load network unit feed).EndsAs feed ending := by
  cases ending with
  | filled =>
    obtain ⟨report, hreport⟩ := h
    rw [load_eq_of_getsReport hreport]
    exact ⟨rfl, feed.map_fst_entries unit report⟩
  | skipped =>
    obtain ⟨code, hcode⟩ := h
    rw [load_of_isRefused hcode]
    exact ⟨rfl, rfl⟩
  | unanswered complaint =>
    obtain ⟨hnothing, rfl⟩ := h
    obtain ⟨requests, hload⟩ := load_of_getsNothing unit hnothing
    rw [hload]
    exact ⟨rfl, rfl⟩
  | malformed refusal =>
    rw [load_of_getsMalformed unit h]
    exact ⟨rfl, rfl⟩

/-- Whatever the network does, it is a cause for one of the ways. -/
theorem exists_causes (client : Client) (network : Http.Network) (feed : Feed) :
    ∃ ending, client.Causes network feed ending := by
  rcases client.gets_cases network feed with hreport | hrefused | hnothing | ⟨refusal, hmalformed⟩
  · exact ⟨.filled, hreport⟩
  · exact ⟨.skipped, hrefused⟩
  · exact ⟨.unanswered _, hnothing, rfl⟩
  · exact ⟨.malformed refusal, hmalformed⟩

/-- The way in which a load ends tells its cause. -/
theorem endsAs_iff_causes (unit : CoinUnit) (ending : Loaded.Ending) :
    (client.load network unit feed).EndsAs feed ending ↔ client.Causes network feed ending := by
  refine ⟨fun h => ?_, endsAs_of_causes unit⟩
  obtain ⟨ending', hcauses⟩ := client.exists_causes network feed
  rw [h.unique (endsAs_of_causes unit hcauses)]
  exact hcauses

/-- **A load ends in one of four ways, and it gives all or nothing.** Each way has its own cause on
the network. A report that is got gives its contents for all slots of its feed, in their order; in
all other ways a document is left exactly as it was. The fault of a request without a complete
answer says what there is to complain about, and that of an answer that holds no report says what
the reader of reports says. -/
theorem load_all_or_nothing (client : Client) (network : Http.Network) (unit : CoinUnit)
    (feed : Feed) :
    (∃! ending, (client.load network unit feed).EndsAs feed ending) ∧
      (∀ ending, (client.load network unit feed).EndsAs feed ending ↔
        client.Causes network feed ending) ∧
      (∀ report, client.GetsReport network feed report →
        (client.load network unit feed).entries = feed.entries unit report) ∧
      (∀ complaint, (client.load network unit feed).EndsAs feed (.unanswered complaint) →
        ∃ fault, (client.load network unit feed).result = .error fault ∧
          fault.message = "request failed: " ++ complaint) ∧
      (∀ refusal, (client.load network unit feed).EndsAs feed (.malformed refusal) →
        ∃ fault, (client.load network unit feed).result = .error fault ∧
          fault.message = "malformed response: " ++ refusal.message) ∧
      ∀ ending, (client.load network unit feed).EndsAs feed ending → ending ≠ .filled →
        ∀ {Document : Type} (put : Document → Slot → Content → Document) (document : Document),
          (client.load network unit feed).fill put document = document := by
  refine ⟨?_, endsAs_iff_causes unit, ?_, ?_, ?_, ?_⟩
  · -- one way, and no second
    obtain ⟨ending, hcauses⟩ := client.exists_causes network feed
    refine ⟨ending, endsAs_of_causes unit hcauses, ?_⟩
    intro ending' h
    exact h.unique (endsAs_of_causes unit hcauses)
  · intro report hreport
    exact (load_of_getsReport hreport).1
  · intro complaint h
    exact ⟨.request complaint, h.1, rfl⟩
  · intro refusal h
    exact ⟨.malformed refusal, h.1, rfl⟩
  · intro ending h hne Document put document
    rw [Loaded.fill, h.entries_eq_nil hne]
    rfl

end Client

end ChainBoard
