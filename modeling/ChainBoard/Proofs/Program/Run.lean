import ChainBoard.Program
import ChainBoard.Proofs.Explorer.Interleaving

/-!
# What a run shows

A run with invalid settings ends at once, with nothing shown and nothing sent. A run with settings
shows pages and nothing else, each of them a blank board after both of its feeds were loaded, in
whatever order the steps of the two loaders follow each other and whether or not they fail. There is
one page without a refresh period; with one there is a page before each pause, with an empty line
behind it. The variable that says which records are shown has no part in any of this.

## Main definitions

* `Program.IsPage`: a text is the page of the settings on a network
* `Program.IsWatching`: which pages a run has shown that is not over

## Main results

* `Program.isPage_iff`: the page is the one that a cycle shows
* `Program.Report.next_eq`, `Program.watch_concat`: a run is what its boards bring, one after the
  other
* `Program.IsWatching.next`, `Program.isWatching_watch`: the step and the run of watching
* `Program.run_shows_pages`: what a run shows, and how it ends
-/

namespace ChainBoard.Program

/-- The text is the page of the settings on a network: both loaders can start from a blank board and
get done, and whenever they are done the board reads like this. -/
def IsPage (settings : Settings) (network : Http.Network) (page : String) : Prop :=
  let reaches := Joint.Reaches (Client.ofAddress settings.address settings.userAgent) network
    settings.coins (Joint.start (Board.blank settings.linkBase))
  (∃ joint, reaches joint ∧ joint.IsSettled) ∧
    ∀ joint, reaches joint → joint.IsSettled → joint.board.render = page

/-- A run has shown these pages, with an empty line behind each of them, and pauses. -/
structure IsWatching (report : Report) (seconds : Nat) (pages : List String) : Prop where
  shown : report.shown = String.join (pages.map (· ++ "\n"))
  ending : report.ending = .watching seconds

variable {settings : Settings} {seconds : Nat} {network : Http.Network} {page : String}

/-- The two loaders leave one page, whatever the order of their steps: the one that a cycle shows.
-/
theorem isPage_iff : IsPage settings network page ↔ page = (cycle settings network).2 := by
  set client := Client.ofAddress settings.address settings.userAgent
  set board := Board.blank settings.linkBase
  have hrender : ∀ joint, Joint.Reaches client network settings.coins (Joint.start board) joint →
      joint.IsSettled → joint.board.render = (cycle settings network).2 := by
    intro joint hreach hsettled
    rw [Joint.board_of_settled (Joint.inv_of_reaches hreach) hsettled, ← Board.after_loadBoard]
    rfl
  have hstart : Joint.Inv client network settings.coins board (Joint.start board) :=
    Joint.inv_start board
  obtain ⟨final, hreach, hsettled⟩ := Joint.exists_settled hstart
  constructor
  · -- one settled end is enough to know the page
    rintro ⟨-, hpage⟩
    rw [← hpage final hreach hsettled, hrender final hreach hsettled]
  · rintro rfl
    exact ⟨⟨final, hreach, hsettled⟩, hrender⟩

/-! ## Watching -/

/-- A board more is what it brings alone, behind what the run has done so far. -/
theorem Report.next_eq (settings : Settings) (report : Report) (network : Http.Network) :
    let further := report.cleared.next settings network
    report.next settings network = { report with
      requests := report.requests ++ further.requests
      log := report.log ++ further.log
      shown := report.shown ++ further.shown } := by
  simp [next, cleared]

/-- A run goes on by one board for each network more. -/
theorem watch_concat (settings : Settings) (seconds : Nat) (networks : List Http.Network)
    (network : Http.Network) : watch settings seconds (networks ++ [network]) =
      (watch settings seconds networks).next settings network := by
  rw [watch, List.foldl_append]
  rfl

/-- The step lemma: one page more. -/
theorem IsWatching.next {report : Report} {pages : List String}
    (h : IsWatching report seconds pages) (hpage : IsPage settings network page) :
    IsWatching (report.next settings network) seconds (pages ++ [page]) where
  shown := by
    rw [isPage_iff.1 hpage, List.map_append, String.join_append, ← h.shown]
    simp [Report.next]
  ending := h.ending

/-- The run lemma: a page more for each network. -/
theorem IsWatching.foldl_next {networks : List Http.Network} {pages : List String}
    (hpages : List.Forall₂ (IsPage settings) networks pages) {report : Report}
    {before : List String} (h : IsWatching report seconds before) :
    IsWatching (networks.foldl (Report.next settings) report) seconds (before ++ pages) := by
  -- Induction on the pages to come; what was shown before them grows.
  induction hpages generalizing report before with
  | nil => rwa [List.append_nil]
  | cons hpage _ ih =>
    rw [List.append_cons]
    exact ih (h.next hpage)

/-- A run with a refresh period shows a page for each network. -/
theorem isWatching_watch {networks : List Http.Network} {pages : List String}
    (hpages : List.Forall₂ (IsPage settings) networks pages) :
    IsWatching (watch settings seconds networks) seconds pages := by
  have hstart : IsWatching ⟨[], [announcement settings, refreshing seconds], "", .watching seconds⟩
      seconds [] := ⟨rfl, rfl⟩
  exact hstart.foldl_next hpages

/-! ## Runs -/

/-- No setting comes from the variable that says which records are shown. -/
theorem logName_notMem_names : logName ∉ Settings.names := by
  decide +kernel

variable {arguments arguments' : List String} {environment environment' : String → Option String}

theorem run_of_resolve_error {fault : Settings.Fault}
    (h : Settings.resolve arguments.head? environment = .error fault) (network : Http.Network) :
    run arguments environment network =
      ⟨[], [⟨.error, .program, (Fault.settings fault).message⟩], "", .exit invalidSettings⟩ := by
  rw [run, h]

theorem run_of_resolve_ok (h : Settings.resolve arguments.head? environment = .ok settings)
    (network : Http.Network) : run arguments environment network = runWith settings network := by
  rw [run, h]

/-- A run depends on its first argument, and on no variable but those that settings come from. -/
theorem run_congr (hargument : arguments'.head? = arguments.head?)
    (henvironment : ∀ name ≠ logName, environment' name = environment name)
    (network : Http.Network) :
    run arguments' environment' network = run arguments environment network := by
  have hresolve : Settings.resolve arguments'.head? environment' =
      Settings.resolve arguments.head? environment := by
    rw [hargument]
    -- the settings come from six variables, and the one for the records is none of them
    refine Settings.resolve_congr (fun name hname => henvironment name ?_) _
    rintro rfl
    exact logName_notMem_names hname
  rw [run, run, hresolve]

/-- **What a run shows, and how it ends.** With invalid settings a run ends with code 2, having
shown nothing and sent nothing. With settings there is a page, whatever the network replies; without
a refresh period the run shows it and ends with code 0, and with one it shows it and an empty line
and pauses. From there on it shows a page and an empty line before each pause, and does not end. Two
runs with the same first argument, in environments that differ at most in which records are to be
shown, do the same. -/
theorem run_shows_pages (arguments : List String) (environment : String → Option String)
    (network : Http.Network) :
    (∀ fault, Settings.resolve arguments.head? environment = .error fault →
      (run arguments environment network).ending = .exit 2 ∧
      (run arguments environment network).shown = "" ∧
      (run arguments environment network).requests = []) ∧
    (∀ settings, Settings.resolve arguments.head? environment = .ok settings →
      ∃ page, IsPage settings network page ∧
        (settings.refresh = none →
          (run arguments environment network).ending = .exit 0 ∧
          (run arguments environment network).shown = page) ∧
        ∀ seconds, settings.refresh = some seconds →
          (run arguments environment network).ending = .watching seconds ∧
          (run arguments environment network).shown = page ++ "\n" ∧
          run arguments environment network = watch settings seconds [network] ∧
          ∀ networks pages, List.Forall₂ (IsPage settings) networks pages →
            IsWatching (watch settings seconds (network :: networks)) seconds (page :: pages)) ∧
    ∀ arguments' environment', arguments'.head? = arguments.head? →
      (∀ name ≠ logName, environment' name = environment name) →
      run arguments' environment' network = run arguments environment network := by
  refine ⟨?_, ?_, ?_⟩
  · intro fault hfault
    rw [run_of_resolve_error hfault]
    exact ⟨rfl, rfl, rfl⟩
  · intro settings hsettings
    have hpage : IsPage settings network (cycle settings network).2 := isPage_iff.2 rfl
    have hrun := run_of_resolve_ok hsettings network
    refine ⟨(cycle settings network).2, hpage, ?_, ?_⟩
    · intro hrefresh
      rw [hrun, runWith, hrefresh]
      exact ⟨rfl, rfl⟩
    · intro seconds hrefresh
      have hwatch : run arguments environment network = watch settings seconds [network] := by
        rw [hrun, runWith, hrefresh]
      have hfirst : IsWatching (watch settings seconds [network]) seconds
          [(cycle settings network).2] := isWatching_watch (.cons hpage .nil)
      rw [hwatch]
      exact ⟨hfirst.ending, by simpa using hfirst.shown, rfl, fun networks pages hpages =>
        isWatching_watch (.cons hpage hpages)⟩
  · intro arguments' environment' hargument henvironment
    exact run_congr hargument henvironment network

end ChainBoard.Program
