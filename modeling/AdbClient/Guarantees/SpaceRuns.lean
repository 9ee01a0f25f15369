import AdbClient.Abstract.Reply
import AdbClient.Abstract.Splitting

/-!
# The collapsed device listing

`get_devices_with_path` collapses the whole listing again after each message. The
collapse carries one bit from left to right, whether the last character kept is a
space, and a collapsed text carries the same bit as the text it came from. How
the listing is divided between messages therefore leaves no trace, also where a
run of spaces is cut in two.
-/
namespace AdbClient.Guarantees.SpaceRuns
open Source Abstract Support.Stream

/-- What a message with the text `chunk` does to the listing. -/
def collect (devicesList chunk : Bytes) : Bytes := uniqueSpaces (devicesList ++ chunk)

/-- The texts of the messages that are no refusals. -/
def texts (msgs : List Bytes) : List Bytes :=
  (msgs.filter fun m => decide (¬ fail <+: m)).map fun m => (reading m).result

/-- What a message leaves of the call. -/
def listingNext (s : CallState) (m : Bytes) : CallState :=
  { takeReading s m with
    output := if fail <+: m then s.output else collect s.output (reading m).result }

section Call
variable {N : Nat} {msgs : List Bytes}

theorem listing_next :
    (meaning (.host .getDevicesWithPath)).next = fun s m => .ok (listingNext s m) := by
  funext s m
  by_cases h : fail <+: m
  · simp [meaning, hostNext, listingNext, reading_status, h, reading_result_of_fail h]
  · simp [meaning, hostNext, listingNext, collect, reading_status, h]

theorem listing_run (msgs : List Bytes) (s : CallState) :
    (msgs.foldl listingNext s).output = (texts msgs).foldl collect s.output := by
  induction msgs generalizing s with
  | nil => rfl
  | cons m msgs ih =>
    rw [List.foldl_cons, ih]
    by_cases h : fail <+: m
    · simp [texts, listingNext, h]
    · simp [texts, listingNext, h]

/-- The callback, message after message, collects the texts into the listing. -/
theorem getDevicesWithPath_collects (hN : 8 < N) (s : CallState) (hfit : Fit N msgs) :
    ∃ x, HostCommand.getDevicesWithPath.call N s msgs = .ok x ∧
      x.state.output = (texts msgs).foldl collect s.output := by
  have hcall := call_eq hN (.host .getDevicesWithPath) msgs hfit s
  rw [listing_next, foldlM_ok] at hcall
  exact ⟨_, hcall, listing_run msgs (entered (.host .getDevicesWithPath) s)⟩

end Call

/-- **Collapsing piece by piece is collapsing once.** For every listing so far and
every non-empty list of chunks: appending each and collapsing the whole gives what
collapsing gives when all are appended first; and this is the listing a call leaves
whose messages bring these chunks. -/
theorem getDevicesWithPath_collapses_once (s : CallState) (chunk : Bytes) (chunks : List Bytes) :
    (chunk :: chunks).foldl collect s.output =
        uniqueSpaces (s.output ++ (chunk :: chunks).flatten) ∧
      ∀ N msgs, 8 < N → Fit N msgs → texts msgs = chunk :: chunks →
        ∃ x, HostCommand.getDevicesWithPath.call N s msgs = .ok x ∧
          x.state.output = (chunk :: chunks).foldl collect s.output ∧
          x.state.output = uniqueSpaces (s.output ++ (chunk :: chunks).flatten) := by
  have honce : (chunk :: chunks).foldl collect s.output =
      uniqueSpaces (s.output ++ (chunk :: chunks).flatten) :=
    foldl_normalise uniqueSpaces_append s.output chunk
  refine ⟨honce, ?_⟩
  intro N msgs hN hfit htexts
  obtain ⟨x, hcall, houtput⟩ := getDevicesWithPath_collects hN s hfit
  rw [htexts] at houtput
  exact ⟨x, hcall, houtput, houtput.trans honce⟩

/-- Two messages that cut a run of spaces, behind a listing that ends in one. -/
theorem getDevicesWithPath_collapses_once_cut :
    ∃ x, HostCommand.getDevicesWithPath.call 64
        { CallState.fresh with output := ascii "emulator-5554    " }
        [ascii "OKAY0015device ", ascii "000d  product:sdk"] = .ok x ∧
      x.state.output = ascii "emulator-5554 device product:sdk" := by
  obtain ⟨x, hcall, -, honce⟩ :=
    (getDevicesWithPath_collapses_once { CallState.fresh with output := ascii "emulator-5554    " }
      (ascii "device ") [ascii "  product:sdk"]).2 64
      [ascii "OKAY0015device ", ascii "000d  product:sdk"] (by decide) (by decide) (by decide)
  exact ⟨x, hcall, honce.trans (by decide)⟩

end AdbClient.Guarantees.SpaceRuns
