import ChainBoard.Proofs.Explorer.Requests
import ChainBoard.Proofs.Settings.Validity

/-!
# Slashes at the end of an address never matter

The address of an explorer loses the slashes at its end twice: where the settings are read, and where
a client is made of it. Slashes that are added to an address change neither the settings nor the
client, and so nothing that the client sends or notes. Both places agree, because what has been
trimmed stays as it is when it is trimmed again: a client asks exactly the address of the settings
for its resources, each of which brings the one slash that stands between the two.

## Main definitions

* `Settings.withSlashes`: an address with slashes behind it

## Main results

* `Settings.trimAddress_withSlashes`, `Settings.resolve_withSlashes`,
  `Client.ofAddress_withSlashes`: added slashes change nothing
* `Client.ofAddress_of_resolve`: the client of the settings is that of the address that was given
* `slashes_never_matter`: settings, requests and records with and without slashes
-/

namespace ChainBoard

namespace Settings

variable {argument? : Option String} {environment : String → Option String} {settings : Settings}

/-- An address with slashes behind it. -/
def withSlashes (address : String) (k : Nat) : String :=
  address ++ String.ofList (List.replicate k '/')

/-- Added slashes are taken off with those that were there. -/
theorem trimAddress_withSlashes (address : String) (k : Nat) :
    trimAddress (withSlashes address k) = trimAddress address := by
  rw [trimAddress, withSlashes, String.toList_append, String.toList_ofList,
    Text.trimEnd_append_replicate]
  rfl

/-- The settings are the same with added slashes, and so is the fault. -/
theorem resolve_withSlashes (address : String) (k : Nat) (environment : String → Option String) :
    resolve (some (withSlashes address k)) environment = resolve (some address) environment := by
  have hgiven (argument : String) : givenAddress (some argument) environment = argument := rfl
  rw [resolve_eq, resolve_eq, hgiven, hgiven, trimAddress_withSlashes]

/-- The address of the settings is the one that was given, trimmed. -/
theorem address_of_resolve (h : resolve argument? environment = .ok settings) :
    settings.address = trimAddress (givenAddress argument? environment) :=
  (resolve_eq_ok_iff.1 h).address.eq_trimAddress.symm

/-- What has been trimmed stays as it is. -/
theorem trimAddress_trimAddress (address : String) :
    trimAddress (trimAddress address) = trimAddress address := by
  apply IsTrimmed.eq_trimAddress
  refine ⟨⟨0, ?_⟩, getLast?_trimAddress_ne address⟩
  rw [List.replicate_zero, List.append_nil]

end Settings

open Settings (withSlashes)

namespace Client

theorem ofAddress_withSlashes (address : String) (k : Nat) (userAgent : String) :
    ofAddress (withSlashes address k) userAgent = ofAddress address userAgent := by
  rw [ofAddress, Settings.trimAddress_withSlashes]
  rfl

/-- The client of the settings asks at the address of the settings, and it is the client of the
address that was given. -/
theorem ofAddress_of_resolve {argument? : Option String} {environment : String → Option String}
    {settings : Settings} (h : Settings.resolve argument? environment = .ok settings)
    (userAgent : String) :
    ofAddress settings.address userAgent = ⟨settings.address, userAgent⟩ ∧
      ofAddress (Settings.givenAddress argument? environment) userAgent =
        ofAddress settings.address userAgent := by
  have htrim : Settings.trimAddress settings.address = settings.address := by
    rw [Settings.address_of_resolve h, Settings.trimAddress_trimAddress]
  rw [ofAddress, ofAddress, htrim, ← Settings.address_of_resolve h]
  exact ⟨rfl, rfl⟩

end Client

/-- A resource stands behind one slash. -/
theorem Feed.exists_path_resource (feed : Feed) :
    ∃ path, feed.resource = "/" ++ path ∧ path.toList.head? ≠ some '/' := by
  cases feed with
  | tip => exact ⟨"explorer", rfl, by decide⟩
  | coins => exact ⟨"explorer/custodyfees/metrics/chain", rfl, by decide⟩

/-- **Slashes at the end of an address never matter.** Settings are the same with any number of
slashes added to the argument, or are refused for the same fault. So are the requests and the records
of a client, at each point of a run. The client of settings asks at the address of the settings as it
stands, which ends without a slash, for the resources of its feeds, each behind one slash; it is the
same client as that of the address that the settings were given. -/
theorem slashes_never_matter :
    (∀ (address : String) (k : Nat) (environment : String → Option String),
      Settings.resolve (some (withSlashes address k)) environment =
        Settings.resolve (some address) environment) ∧
    (∀ (address : String) (k : Nat) (userAgent : String) (unit : CoinUnit) (board : Board)
      (loads : List (Http.Network × Load)) (network : Http.Network) (load : Load),
      let run (client : Client) := ((Session.mk client unit board).run loads).outcome network load
      let slashed := run (Client.ofAddress (withSlashes address k) userAgent)
      let plain := run (Client.ofAddress address userAgent)
      slashed.requests = plain.requests ∧ slashed.log = plain.log) ∧
    ∀ (argument? : Option String) (environment : String → Option String) (settings : Settings),
      Settings.resolve argument? environment = .ok settings →
      let client := Client.ofAddress settings.address settings.userAgent
      client.address = settings.address ∧
        Client.ofAddress (Settings.givenAddress argument? environment) settings.userAgent =
          client ∧
        settings.address.toList.getLast? ≠ some '/' ∧
        (∀ feed : Feed, ∃ path, feed.resource = "/" ++ path ∧ path.toList.head? ≠ some '/') ∧
        ∀ (unit : CoinUnit) (board : Board) (loads : List (Http.Network × Load))
          (network : Http.Network) (load : Load), ¬ client.IsCutOff network →
          (((Session.mk client unit board).run loads).outcome network load).requests.map
              Http.Request.url =
            load.feeds.map fun feed => settings.address ++ feed.resource := by
  refine ⟨Settings.resolve_withSlashes, ?_, ?_⟩
  · intro address k userAgent unit board loads network load run slashed plain
    have hclient : Client.ofAddress (withSlashes address k) userAgent =
        Client.ofAddress address userAgent := Client.ofAddress_withSlashes address k userAgent
    have hsame : slashed = plain := congrArg run hclient
    rw [hsame]
    exact ⟨rfl, rfl⟩
  · intro argument? environment settings h client
    obtain ⟨hclient, hgiven⟩ := Client.ofAddress_of_resolve h settings.userAgent
    have haddress : client.address = settings.address := congrArg Client.address hclient
    refine ⟨haddress, hgiven, (Settings.resolve_eq_ok_iff.1 h).address.getLast?_ne,
      Feed.exists_path_resource, ?_⟩
    intro unit board loads network load hcut
    have hrun : ((Session.mk client unit board).run loads).client = client :=
      (Session.run_frame ⟨client, unit, board⟩ loads).1
    have hsend : ((Session.mk client unit board).run loads).client.canSend network = true := by
      rw [hrun]
      exact Client.canSend_of_not_isCutOff hcut
    rw [Session.requests_outcome hsend, hrun, List.map_map]
    apply List.map_congr_left
    intro feed _
    rw [← haddress]
    exact client.url_request feed

/-- Settings from an address with three slashes at its end: the client asks behind one. -/
theorem slashes_never_matter_three :
    let environment : String → Option String := fun _ => none
    let settings : Settings := ⟨"https://e:1/a", "Rivine-Agent", ⟨9, "AUR"⟩, "", none⟩
    let network : Http.Network :=
      ⟨fun address => address = "https://e:1/a", fun _ => .closed, fun _ => "no reply"⟩
    Settings.resolve (some "https://e:1/a///") environment = .ok settings ∧
      ((Session.start (Client.ofAddress settings.address settings.userAgent) {} "").outcome network
          .board).requests.map Http.Request.url =
        ["https://e:1/a/explorer", "https://e:1/a/explorer/custodyfees/metrics/chain"] := by
  intro environment settings network
  have hresolve : Settings.resolve (some "https://e:1/a///") environment = .ok settings := by
    decide +kernel
  refine ⟨hresolve, ?_⟩
  obtain ⟨-, -, -, -, hrequests⟩ := slashes_never_matter.2.2 _ environment settings hresolve
  apply hrequests {} (Board.blank "") [] network .board
  rw [← Client.canSend_eq_false_iff]
  decide +kernel

end ChainBoard
