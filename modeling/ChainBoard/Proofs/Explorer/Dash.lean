import ChainBoard.Proofs.Board.Lines
import ChainBoard.Proofs.Decimal.Digits
import ChainBoard.Proofs.Explorer.Coherence

/-!
# A dash stands for what was never loaded

A slot without contents is shown as a dash. Nothing else is: every figure that a report gives has a
character in its text that is no dash, whatever the explorer sends and whatever people call their
coins. After any run of a session, a slot therefore shows a dash exactly as long as no load has given
it contents.

## Main definitions

* `Session.Fills`: a load gives contents for a slot

## Main results

* `Difficulty.readable_ne_dash`, `Time.Instant.readable_ne_dash`, `CoinUnit.readable_ne_dash`,
  `Link.render_toBlock_ne_dash`, `Link.render_toHash_ne_dash`: no figure is shown as a dash
* `Session.fills_iff_brings`: a slot is filled by the loads that bring a report of its feed
* `Session.shown_eq_dash_iff`: a dash stands for a slot that was never filled
-/

namespace ChainBoard

/-! ## No figure is shown as a dash -/

namespace Text

/-- A text with another character in it is no dash. -/
theorem ne_dash_of_mem {text : String} {c : Char} (h : c ∈ text.toList) (hc : c ≠ '-') :
    text ≠ "-" := by
  rintro rfl
  exact hc (List.mem_singleton.1 h)

/-- Nor is a text with a digit in it. -/
theorem ne_dash_of_isDigit {text : String} (h : ∃ d ∈ text.toList, d.isDigit = true) :
    text ≠ "-" := by
  obtain ⟨d, hd, hdigit⟩ := h
  apply ne_dash_of_mem hd
  rintro rfl
  simp at hdigit

end Text

/-- A link is shown with its target in angle brackets. -/
theorem Content.render_link_ne_dash (shown target : String) : (link shown target).render ≠ "-" := by
  apply Text.ne_dash_of_mem (c := '<')
  · simp [render]
  · decide

theorem Link.render_toBlock_ne_dash (linkBase : String) (height : Nat) :
    ((toBlock height).linkedTo linkBase).render ≠ "-" :=
  Content.render_link_ne_dash _ _

theorem Link.render_toHash_ne_dash (linkBase hash : String) :
    ((toHash hash).linkedTo linkBase).render ≠ "-" :=
  Content.render_link_ne_dash _ _

theorem Difficulty.readable_ne_dash (n : Nat) : readable n ≠ "-" := by
  apply Text.ne_dash_of_isDigit
  rw [readable, String.toList_ofList]
  by_cases h : n < 1000
  · rw [if_pos h]
    obtain ⟨d, hd⟩ := List.exists_mem_of_ne_nil (Nat.toDigits 10 n) Nat.toDigits_ne_nil
    exact ⟨d, hd, Decimal.isDigit_of_mem_toDigits hd⟩
  · rw [if_neg h]
    obtain ⟨d, hd, hdigit⟩ :=
      Decimal.exists_isDigit_mem_grouped (hundredths (Scale.first.climb n) n / 100)
    exact ⟨d, by simp [atScale, hd], hdigit⟩

/-- An instant with a date is shown with its time zone, and one without as invalid. -/
theorem Time.Instant.readable_ne_dash (seconds : Nat) : readable seconds ≠ "-" := by
  by_cases h : seconds ≤ last
  · apply Text.ne_dash_of_mem (c := 'U')
    · simp [readable, h]
    · decide
  · apply Text.ne_dash_of_mem (c := 'i')
    · simp [readable, h]
    · decide

theorem CoinUnit.readable_ne_dash (unit : CoinUnit) (amount : Nat) :
    unit.readable amount ≠ "-" := by
  apply Text.ne_dash_of_isDigit
  obtain ⟨d, hd, hdigit⟩ := Decimal.exists_isDigit_mem_grouped (amount / unit.coin)
  exact ⟨d, by simp [readable, hd], hdigit⟩

/-- No content that a report gives is shown as a dash. -/
theorem Feed.render_ne_dash {unit : CoinUnit} (linkBase : String) (feed : Feed)
    (report : feed.Report) {entry : Slot × Content} (h : entry ∈ feed.entries unit report) :
    (entry.2.linkedTo linkBase).render ≠ "-" := by
  cases feed with
  | tip =>
    simp only [entries, TipReport.entries, List.mem_cons, List.not_mem_nil, or_false] at h
    rcases h with rfl | rfl | rfl
    · exact Link.render_toBlock_ne_dash linkBase _
    · exact Link.render_toHash_ne_dash linkBase _
    · exact Difficulty.readable_ne_dash _
  | coins =>
    simp only [entries, CoinReport.entries, List.mem_cons, List.not_mem_nil, or_false] at h
    rcases h with rfl | rfl | rfl | rfl | rfl | rfl
    · exact Time.Instant.readable_ne_dash _
    all_goals exact unit.readable_ne_dash _

/-! ## What a slot shows -/

namespace Board

variable {board : Board} {slot : Slot}

/-- A blank slot shows a dash. -/
theorem shown_of_get_none (h : board.get slot = none) : board.shown slot = ['-'] := by
  rw [shown, h]
  rfl

/-- A slot that shows a report does not show a dash. -/
theorem Shows.shown_ne_dash {linkBase : String} {unit : CoinUnit}
    {report : (Feed.ofSlot slot).Report}
    (h : board.Shows linkBase unit (Feed.ofSlot slot) report) : board.shown slot ≠ ['-'] := by
  have hslot : slot ∈ (Feed.ofSlot slot).slots := (Feed.mem_slots_iff _ slot).2 rfl
  rw [← Feed.map_fst_entries unit (Feed.ofSlot slot) report] at hslot
  obtain ⟨entry, hentry, hfst⟩ := List.mem_map.1 hslot
  have hget := h entry hentry
  rw [hfst] at hget
  have hne := Feed.render_ne_dash linkBase _ report hentry
  rw [shown, hget]
  intro hdash
  exact hne (String.toList_inj.1 hdash)

end Board

namespace Session

/-- A load fills a slot: the loader of its feed gives contents for it. -/
def Fills (session : Session) (load : Http.Network × Load) (slot : Slot) : Prop :=
  slot ∈ (session.entriesFor load.1 load.2 (Feed.ofSlot slot)).map (·.1)

variable {session : Session} {load : Http.Network × Load} {slot : Slot}

/-- A slot is filled by no other loader than that of its feed. -/
theorem fills_iff_mem_outcome :
    session.Fills load slot ↔
      slot ∈ (session.outcome load.1 load.2).entries.map (·.1) := by
  have hother {feed : Feed} (hslot : slot ∈ (session.entriesFor load.1 load.2 feed).map (·.1)) :
      session.Fills load slot := by
    rw [Fills, ofSlot_eq_of_mem_entriesFor hslot]
    exact hslot
  rw [entries_outcome, List.map_append, List.mem_append]
  constructor
  · intro h
    unfold Fills at h
    cases hfeed : Feed.ofSlot slot with
    | tip => exact .inl (hfeed ▸ h)
    | coins => exact .inr (hfeed ▸ h)
  · rintro (h | h)
    · exact hother h
    · exact hother h

/-- A slot is filled by the loads that bring a report of its feed. -/
theorem fills_iff_brings :
    session.Fills load slot ↔ ∃ report, session.client.Brings (Feed.ofSlot slot) load report := by
  rw [Fills, entriesFor]
  by_cases hreads : load.2.reads (Feed.ofSlot slot) = true
  · rw [if_pos hreads]
    rcases session.client.load_cases load.1 session.unit (Feed.ofSlot slot) with
      ⟨report, hgets, hentries⟩ | ⟨hnone, hentries⟩
    · rw [hentries, Feed.map_fst_entries]
      exact ⟨fun _ => ⟨report, hreads, hgets⟩, fun _ => (Feed.mem_slots_iff _ slot).2 rfl⟩
    · rw [hentries]
      refine ⟨fun h => absurd h List.not_mem_nil, ?_⟩
      rintro ⟨report, -, hgets⟩
      exact absurd hgets (hnone report)
  · rw [if_neg hreads]
    refine ⟨fun h => absurd h List.not_mem_nil, ?_⟩
    rintro ⟨report, h, -⟩
    exact absurd h hreads

/-- **A dash stands for what was never loaded.** After any run on any networks, the board is shown as
its slots in order, each behind its name and a space and in front of a line feed; a slot shows a dash
if and only if its loader has not filled it in any load of the run; no other loader fills it; and no
height, block identifier, difficulty, time or amount is itself shown as a dash. -/
theorem shown_eq_dash_iff (address userAgent linkBase : String) (unit : CoinUnit)
    (loads : List (Http.Network × Load)) :
    let session := start (Client.ofAddress address userAgent) unit linkBase
    let board := (session.run loads).board
    board.render.toList =
        Slot.all.flatMap (fun slot => slot.head ++ board.shown slot ++ ['\n']) ∧
      (∀ slot, board.shown slot = ['-'] ↔ ∀ load ∈ loads, ¬ session.Fills load slot) ∧
      (∀ load slot, session.Fills load slot ↔
        slot ∈ (session.outcome load.1 load.2).entries.map (·.1)) ∧
      (∀ height, ((Link.toBlock height).linkedTo linkBase).render ≠ "-") ∧
      (∀ hash, ((Link.toHash hash).linkedTo linkBase).render ≠ "-") ∧
      (∀ difficulty, Difficulty.readable difficulty ≠ "-") ∧
      (∀ seconds, Time.Instant.readable seconds ≠ "-") ∧
      ∀ amount, unit.readable amount ≠ "-" := by
  intro session board
  refine ⟨?_, ?_, fun _ _ => fills_iff_mem_outcome, Link.render_toBlock_ne_dash linkBase,
    Link.render_toHash_ne_dash linkBase, Difficulty.readable_ne_dash,
    Time.Instant.readable_ne_dash, unit.readable_ne_dash⟩
  · rw [Board.toList_render, List.flatMap_map]
  · intro slot
    have hbrings (load : Http.Network × Load) : session.Fills load slot ↔
        ∃ report, (Client.ofAddress address userAgent).Brings (Feed.ofSlot slot) load report :=
      fills_iff_brings
    rcases blank_or_shows_run (Client.ofAddress address userAgent) unit linkBase loads
      (Feed.ofSlot slot) with ⟨hblank, hnone⟩ | ⟨report, hlast, hshows⟩
    · -- no load has brought a report
      have hget : board.get slot = none := hblank slot ((Feed.mem_slots_iff _ slot).2 rfl)
      refine ⟨fun _ load hload hfills => ?_, fun _ => Board.shown_of_get_none hget⟩
      obtain ⟨report, hreport⟩ := (hbrings load).1 hfills
      exact hnone load hload report hreport
    · -- the last report is shown
      refine ⟨fun hdash => absurd hdash hshows.shown_ne_dash, fun hnone => ?_⟩
      obtain ⟨before, load, after, rfl, hload, -⟩ := hlast
      exact absurd ((hbrings load).2 ⟨report, hload⟩) (hnone load (by simp))

end Session

end ChainBoard
