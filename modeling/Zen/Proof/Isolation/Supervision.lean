import Zen.Proof.Isolation.Snapshot
import Zen.Proof.Isolation.Notices

/-!
# Bounded supervision

As long as nobody else asks the bus to bring a link's Shard back, each respawn of its child is paid
from the budget of its policy, and a recovery without a child at its end is the last one.
-/

namespace Zen.Isolation
open Lib Sb BusM

variable {ν ς : Type}

-- the Shard that somebody else asks to bring back
def Input.revives : Input ν ς → Option ShardId
  | .bus input _ => input.revives
  | _ => none

-- its link, if it is a proxy
def Input.comesTo (s : System ν ς) : Input ν ς → Option Pointer
  | .bus input _ => Isolation.comesTo s.bus input
  | _ => none

/-! ## What an input does to one link -/

/-- What is left of the link's life is left alone. -/
structure Spared (p : Pointer) (link link' : Link) (s s' : System ν ς) : Prop where
  found : s'.host.heap p = some link'
  renewed : Renewed link link'
  life : link'.dead = link.dead ∧ link'.deathSignaled = link.deathSignaled ∧ link'.quarantined = link.quarantined
  awake : link'.channel.isSome = link.channel.isSome

inductive Fate (p : Pointer) (link : Link) (s s' : System ν ς) : Input ν ς → Prop where
  | released {input : Input ν ς} (gone : s'.host.heap p = none)
      (count : s'.host.respawns.count p = s.host.respawns.count p) : Fate p link s s' input
  | spared {input : Input ν ς} (link' : Link) (spared : Spared p link link' s s')
      (count : s'.host.respawns.count p = s.host.respawns.count p) (faded : Faded link.id s.bus s'.bus) :
      Fate p link s s' input
  | supervised {answers : SpawnAnswers} (todo : List Pointer) (door : Schema) (v policy : Value)
      (phase : s.phase = .supervising (p :: todo)) (cached : Cached link door v policy) (needy : link.needy = true)
      (recovered : Recovered p link.mourned door v policy
        (stricken p link { s.world with env := { s.host with answers } }) s'.world) :
      Fate p link s s' (.supervise answers)

theorem Spared.of_same {p : Pointer} {link : Link} {s s' : System ν ς} (mounted : s.host.heap p = some link)
    (same : s'.host.heap p = s.host.heap p) : Spared p link link s s' :=
  ⟨same.trans mounted, .refl link, ⟨rfl, rfl, rfl⟩, rfl⟩

theorem drained_respawns {s s' : System ν ς} {p : Pointer} {link : Link} {ch : Channel} {sends : List SendResult}
    {recvs : List RecvResult} (mounted : s.host.heap p = some link) (live : link.channel = some ch)
    (world : s'.world = drainChild p sends recvs s.world) : s'.host.respawns = s.host.respawns := by
  have found : s.world.env.heap p = some link := mounted
  rw [drainChild_eq found live] at world
  exact congrArg (fun w => w.env.respawns) world

theorem replicate_count {p q : Pointer} (other : p ≠ q) (n : Nat) (respawns : List Pointer) :
    (respawns ++ List.replicate n q).count p = respawns.count p := by
  rw [List.count_append, List.count_replicate]
  simp [other.symm]

theorem HostOk.apart_ids {m : Machine (Shard ν) (Host ς)} (ok : HostOk m) {p q : Pointer} {link link' : Link}
    {rec : ShardRecord (Shard ν)} (mounted : m.world.env.heap p = some link)
    (mounted' : m.world.env.heap q = some link') (same : link'.id = link.id)
    (found : m.world.sb.find link.id = some rec) : p = q := by
  have first := (ok.bound p link rec mounted found).1
  have second := (ok.bound q link' rec mounted' (by rw [same]; exact found)).1
  rw [first] at second
  cases second
  rfl

theorem recovered_faded {s s' : System ν ς} {p q : Pointer} {link other : Link} {door : Schema} {v policy : Value}
    {answers : SpawnAnswers} (ok : HostOk s.machine) (mounted : s.host.heap p = some link)
    (mounted' : s.host.heap q = some other) (different : p ≠ q)
    (recovered : Recovered q other.mourned door v policy
      (stricken q other { s.world with env := { s.host with answers } }) s'.world) :
    Faded link.id s.bus s'.bus := by
  have struck := stricken_faded q other { s.world with env := { s.host with answers } } link.id
  cases recovered with
  | spent link' ruled buried exhausted bus events revived host =>
      exact struck.trans (.of_shards (by rw [show s'.bus = _ from bus]))
  | tried link' ruled result rec found left bus events revived host =>
      rw [other.mourned_same.1] at found bus
      have apart : link.id ≠ other.id := by
        intro same
        obtain ⟨rec₀, found₀, _⟩ :=
          stricken_faded q other { s.world with env := { s.host with answers } } other.id rec found
        exact different (ok.apart_ids mounted mounted' same.symm (by rw [same]; exact found₀))
      refine struck.trans ?_
      intro rec' found'
      rw [show s'.bus = _ from bus, Switchboard.find, OrdMap.find_update, if_neg apart] at found'
      exact ⟨rec', found', .refl rec'⟩

theorem comesTo_mounted {s : System ν ς} (ok : HostOk s.machine) {call : Sb.Input ν ς} {p : Pointer}
    (comes : comesTo s.bus call = some p) :
    ∃ link, s.host.heap p = some link ∧ call.revives = some link.id := by
  obtain ⟨id, revives, proxy⟩ := Option.bind_eq_some_iff.mp comes
  obtain ⟨rec, found, shard⟩ := proxyOf_eq_some.mp proxy
  obtain ⟨link, mounted, same⟩ := ok.owned id rec p found shard
  exact ⟨link, mounted, by rw [same]; exact revives⟩

/-- A Shard that others do not bring back spends no reload in their calls. -/
theorem called_faded {s s' : System ν ς} {call : Sb.Input ν ς} {p : Pointer} {link : Link} (ok : HostOk s.machine)
    (mounted : s.host.heap p = some link) (alone : comesTo s.bus call ≠ some p)
    (reshaped : Reshaped (hosted call).joining s.machine s'.machine)
    (faded : ∀ id < s.bus.nextShardId, call.revives ≠ some id → Faded id s.bus s'.bus) :
    Faded link.id s.bus s'.bus := by
  have known : link.id < s.bus.nextShardId := ok.known p link mounted
  by_cases revives : call.revives = some link.id
  · intro rec' found
    rcases reshaped.origin ok.records.below found with ⟨rec, old, _⟩ | ⟨new, _⟩
    · have shard := (ok.bound p link rec mounted old).1
      have comes : comesTo s.bus call = some p := by
        rw [comesTo, revives]
        exact proxyOf_eq_some.mpr ⟨rec, old, shard⟩
      exact absurd comes alone
    · exact absurd new (Nat.ne_of_lt known)
  · exact faded link.id known revives

theorem Input.comesTo_ne {s : System ν ς} (ok : HostOk s.machine) {input : Input ν ς} {p : Pointer} {link : Link}
    (mounted : s.host.heap p = some link) (alone : input.revives ≠ some link.id) : input.comesTo s ≠ some p := by
  intro comes
  cases input with
  | bus call answers =>
      obtain ⟨link', mounted', revives⟩ := comesTo_mounted ok comes
      cases mounted.symm.trans mounted'
      exact alone revives
  | _ => cases comes

theorem step_fate {native : ShardOps ν ς} {input : Input ν ς} {s s' : System ν ς} {p : Pointer} {link : Link}
    (ok : HostOk s.machine) (mounted : s.host.heap p = some link) (alone : input.comesTo s ≠ some p)
    (action : System.step native input s = some s') : Fate p link s s' input := by
  have known : link.id < s.bus.nextShardId := ok.known p link mounted
  cases step_stepped ok action with
  | aside h =>
      exact .spared link (.of_same mounted (congrFun h.heap p)) (by rw [h.respawns]) (.of_shards h.shards)
  | mounted id new rec taken registered =>
      have older : p ≠ s.host.nextLink := Nat.ne_of_lt (ok.below p link mounted)
      refine .spared link (.of_same mounted (by rw [taken.heap_at, if_neg older])) ?_ ?_
      · rw [show s'.host.respawns = _ from taken.respawns]
        rfl
      · intro rec' found
        rw [taken.find_at ok.records, if_neg (Nat.ne_of_lt known)] at found
        exact ⟨rec', found, .refl rec'⟩
  | unmounted q gone released registered =>
      have count : s'.host.respawns.count p = s.host.respawns.count p := by
        rw [show s'.host.respawns = _ from released.respawns]
        rfl
      by_cases here : p = q
      · exact .released (by rw [released.heap_at, if_pos here]) count
      · refine .spared link (.of_same mounted (by rw [released.heap_at, if_neg here])) count ?_
        rw [show s'.bus = _ from released.bus]
        exact unregisterShard_faded s.bus gone.id link.id
  | drained q todo other ch phase mounted' live registered world =>
      rename_i sends recvs
      obtain ⟨touched, es, bus, _⟩ := drained_touched mounted' live world
      have faded : Faded link.id s.bus s'.bus := .of_shards (by rw [bus]; rfl)
      have count : s'.host.respawns.count p = s.host.respawns.count p := by
        rw [drained_respawns mounted' live world]
      by_cases here : p = q
      · subst here
        cases mounted.symm.trans mounted'
        have rest := (drainedLink_refreshed link ch sends recvs).rest
        refine .spared _ ⟨touched.here, drainedLink_renewed live _ _, ?_, ?_⟩ count faded
        · rw [rest]
          exact ⟨rfl, rfl, rfl⟩
        · rw [live, drainedLink, frames_channel]
          rfl
      · exact .spared link (.of_same mounted (touched.elsewhere here)) count faded
  | supervised q todo other door v policy phase mounted' cached needy recovered registered =>
      by_cases here : p = q
      · subst here
        cases mounted.symm.trans mounted'
        exact .supervised todo door v policy phase cached needy recovered
      · obtain ⟨link', n, touched, _, _, respawns⟩ := supervised_touched mounted' recovered
        refine .spared link (.of_same mounted (touched.elsewhere here)) ?_
          (recovered_faded ok mounted mounted' here recovered)
        rw [respawns, replicate_count here]
  | called tended reshaped faded =>
      obtain ⟨heap, count⟩ := tended.others p alone
      exact .spared link (.of_same mounted heap) count (called_faded ok mounted alone reshaped faded)
  | handled e trusted q other h =>
      have touched := handled_touched h
      obtain ⟨answers, host⟩ := h.host
      have count : s'.host.respawns.count p = s.host.respawns.count p := by rw [host]; rfl
      have faded : Faded link.id s.bus s'.bus := .of_shards h.shards
      by_cases here : p = q
      · subst here
        cases mounted.symm.trans h.mounted
        have rest := shipped_rehoused link trusted
        refine .spared _ ⟨touched.here, shipped_renewed link trusted, ?_, ?_⟩ count faded
        · rw [rest]
          exact ⟨rfl, rfl, rfl⟩
        · unfold shipped
          split
          · rename_i ch bytes live written
            rw [live]
            rfl
          · rfl
      · exact .spared link (.of_same mounted (touched.elsewhere here)) count faded

/-! ## What a link has spent -/

/-- The bus has charged each respawn of the link to its budget. -/
structure Watched (p : Pointer) (link : Link) (s : System ν ς) : Prop where
  spent : ∀ rec, s.bus.find link.id = some rec → rec.reloadsUsed = s.host.respawns.count p
  within : ∀ policy, link.policyValue = some policy → s.host.respawns.count p ≤ (maxReloads policy).toNat
  buried : link.quarantined = true → link.channel = none

theorem recovered_watched {s s' : System ν ς} {answers : SpawnAnswers} {p : Pointer} {link : Link} {door : Schema}
    {v policy : Value} (mounted : s.host.heap p = some link) (cached : Cached link door v policy)
    (watched : Watched p link s)
    (recovered : Recovered p link.mourned door v policy
      (stricken p link { s.world with env := { s.host with answers } }) s'.world) :
    ∃ link', s'.host.heap p = some link' ∧ link.Ruled link' ∧ Watched p link' s' := by
  have begun := stricken_host (w := { s.world with env := { s.host with answers } }) mounted
  have faded := stricken_faded p link { s.world with env := { s.host with answers } } link.id
  cases recovered with
  | spent link' ruled buried exhausted bus events revived host =>
      obtain ⟨calls, host⟩ := host
      have ruled := link.mourned_ruled.trans ruled
      have respawns : s'.host.respawns = s.host.respawns := by
        rw [show s'.host = _ from host, begun]
        rfl
      refine ⟨link', ?_, ruled, ?_, ?_, fun _ => buried.channel⟩
      · rw [show s'.host = _ from host]
        exact put_heap _ _ _
      · intro rec found
        rw [ruled, show s'.bus = _ from bus] at found
        obtain ⟨rec₀, found₀, dulled⟩ := faded rec found
        rw [respawns, dulled.reloadsUsed]
        exact watched.spent rec₀ found₀
      · intro policy' declared
        rw [ruled] at declared
        rw [respawns]
        exact watched.within policy' declared
  | tried link' ruled result rec found left bus events revived host =>
      obtain ⟨calls, host⟩ := host
      have ruled := link.mourned_ruled.trans ruled
      rw [link.mourned_same.1] at found bus
      obtain ⟨rec₀, found₀, dulled⟩ := faded rec found
      have used := watched.spent rec₀ found₀
      rw [dulled.reloadsUsed, used] at left
      have count : s'.host.respawns.count p = s.host.respawns.count p + 1 := by
        have respawns : s'.host.respawns = s.host.respawns ++ [p] := by
          rw [show s'.host = _ from host, begun]
          rfl
        rw [respawns, List.count_append, List.count_singleton_self]
      refine ⟨link', ?_, ruled, ?_, ?_, ?_⟩
      · rw [show s'.host = _ from host]
        exact put_heap _ _ _
      · intro rec' found'
        rw [ruled, show s'.bus = _ from bus, Switchboard.find, OrdMap.find_update, if_pos rfl] at found'
        obtain ⟨rec₁, found₁, rfl⟩ := Option.map_eq_some_iff.mp found'
        cases found.symm.trans found₁
        rw [count, ← used, ← dulled.reloadsUsed]
        rfl
      · intro policy' declared
        rw [ruled] at declared
        cases cached.policyValue.symm.trans declared
        omega
      · intro quarantined
        rcases result with buried | restored
        · exact buried.channel
        · rw [restored.quarantined] at quarantined
          cases quarantined

theorem step_watched {native : ShardOps ν ς} {input : Input ν ς} {s s' : System ν ς} {p : Pointer} {link link' : Link}
    (ok : HostOk s.machine) (mounted : s.host.heap p = some link) (alone : input.revives ≠ some link.id)
    (action : System.step native input s = some s') (watched : Watched p link s)
    (found : s'.host.heap p = some link') :
    link'.id = link.id ∧ link'.policyValue = link.policyValue ∧ Watched p link' s' := by
  cases step_fate ok mounted (input.comesTo_ne ok mounted alone) action with
  | released gone count =>
      rw [gone] at found
      cases found
  | spared link₁ spared count faded =>
      cases found.symm.trans spared.found
      have renewed := spared.renewed
      refine ⟨renewed.id, renewed.policyValue, ?_, ?_, ?_⟩
      · intro rec found
        rw [renewed.id] at found
        obtain ⟨rec₀, found₀, dulled⟩ := faded rec found
        rw [count, dulled.reloadsUsed]
        exact watched.spent rec₀ found₀
      · intro policy declared
        rw [renewed.policyValue] at declared
        rw [count]
        exact watched.within policy declared
      · intro quarantined
        rw [spared.life.2.2] at quarantined
        have none := spared.awake
        rw [watched.buried quarantined] at none
        simpa using none
  | supervised todo door v policy phase cached needy recovered =>
      obtain ⟨link₁, found₁, ruled, after⟩ := recovered_watched mounted cached watched recovered
      cases found.symm.trans found₁
      refine ⟨?_, ?_, after⟩
      · rw [ruled]
      · rw [ruled]

theorem mounted_watched {s s' : System ν ς} {name : ByteString} {grant : Grant} {id : ShardId} {link : Link}
    {rec : ShardRecord (Shard ν)} (ok : HostOk s.machine) (taken : Taken name grant s.world s'.world id link rec) :
    Watched s.host.nextLink link s' := by
  obtain ⟨door, v, policy, cached, enrolled⟩ := taken.cached
  have none : s'.host.respawns.count s.host.nextLink = 0 := by
    rw [show s'.host.respawns = _ from taken.respawns, List.count_eq_zero]
    intro tried
    exact Nat.lt_irrefl _ (ok.tried _ tried)
  refine ⟨?_, fun policy _ => by rw [none]; exact Nat.zero_le _, ?_⟩
  · intro rec' found
    rw [taken.find_at ok.records, if_pos taken.link_id] at found
    cases found
    rw [none, enrolled.reloadsUsed]
  · intro quarantined
    rw [taken.newcomer.living.2.2] at quarantined
    cases quarantined

theorem watched_always {native : ShardOps ν ς} {host : Host ς} {inputs : List (Input ν ς)} {s : System ν ς}
    (run : Reaches native (.start host) inputs s) {p : Pointer} {link : Link} (mounted : s.host.heap p = some link)
    (alone : ∀ input ∈ inputs, input.revives ≠ some link.id) : Watched p link s := by
  induction run generalizing link with
  | nil => cases mounted
  | snoc run action ih =>
      rename_i mid s' before input
      have ok := host_ok run
      have moved := step_moved ok action
      cases earlier : mid.host.heap p with
      | none =>
          obtain ⟨rfl, name, soPath, grant, answers, id, rec, _, taken⟩ := moved.new earlier mounted
          exact mounted_watched ok taken
      | some link₀ =>
          have same := (moved.same ok earlier mounted).id
          have before : Watched p link₀ mid := by
            refine ih earlier ?_
            intro input hi
            rw [← same]
            exact alone input (by simp [hi])
          have last : input.revives ≠ some link₀.id := by
            rw [← same]
            exact alone input (by simp)
          exact (step_watched ok earlier last action before mounted).2.2

/-! ## What comes after -/

theorem gone_stays {native : ShardOps ν ς} {input : Input ν ς} {s s' : System ν ς} {p : Pointer}
    (ok : HostOk s.machine) (old : p < s.host.nextLink) (gone : s.host.heap p = none)
    (action : System.step native input s = some s') :
    s'.host.heap p = none ∧ s'.host.respawns.count p = s.host.respawns.count p := by
  have other : ∀ {q : Pointer} {link : Link}, s.host.heap q = some link → p ≠ q := by
    rintro q link mounted rfl
    rw [gone] at mounted
    cases mounted
  cases step_stepped ok action with
  | aside h => exact ⟨(congrFun h.heap p).trans gone, by rw [h.respawns]⟩
  | mounted id new rec taken registered =>
      refine ⟨by rw [taken.heap_at, if_neg (Nat.ne_of_lt old)]; exact gone, ?_⟩
      rw [show s'.host.respawns = _ from taken.respawns]
      rfl
  | unmounted q link released registered =>
      refine ⟨by rw [released.heap_at, if_neg (other released.mounted)]; exact gone, ?_⟩
      rw [show s'.host.respawns = _ from released.respawns]
      rfl
  | drained q todo link ch phase mounted live registered world =>
      have touched := (drained_touched mounted live world).1
      exact ⟨(touched.elsewhere (other mounted)).trans gone, by rw [drained_respawns mounted live world]⟩
  | supervised q todo link door v policy phase mounted cached needy recovered registered =>
      obtain ⟨link', n, touched, _, _, respawns⟩ := supervised_touched mounted recovered
      exact ⟨(touched.elsewhere (other mounted)).trans gone, by rw [respawns, replicate_count (other mounted)]⟩
  | called tended reshaped faded =>
      rename_i call answers
      have elsewhere : comesTo s.bus call ≠ some p := by
        intro comes
        obtain ⟨link, mounted, _⟩ := comesTo_mounted ok comes
        exact other mounted rfl
      exact ⟨tended.gone p gone, (tended.others p elsewhere).2⟩
  | handled e trusted q link h =>
      obtain ⟨answers, host⟩ := h.host
      exact ⟨((handled_touched h).elsewhere (other h.mounted)).trans gone, by rw [host]; rfl⟩

/-- Of the link at `p`, mounted or gone by now. -/
structure Spent (p : Pointer) (id : ShardId) (policy : Value) (s : System ν ς) : Prop where
  ok : HostOk s.machine
  old : p < s.host.nextLink
  within : s.host.respawns.count p ≤ (maxReloads policy).toNat
  link : ∀ link, s.host.heap p = some link → link.id = id ∧ link.policyValue = some policy ∧ Watched p link s

def Retired (p : Pointer) (s : System ν ς) : Prop := ∀ link, s.host.heap p = some link → link.quarantined = true

def Rests (p : Pointer) (s s' : System ν ς) : Prop :=
  Retired p s → Retired p s' ∧ s'.host.respawns.count p = s.host.respawns.count p

theorem Rests.trans {p : Pointer} {s mid s' : System ν ς} (first : Rests p s mid) (second : Rests p mid s') :
    Rests p s s' := by
  intro retired
  obtain ⟨retired, count⟩ := first retired
  obtain ⟨retired, count'⟩ := second retired
  exact ⟨retired, count'.trans count⟩

theorem step_nextLink {native : ShardOps ν ς} {input : Input ν ς} {s s' : System ν ς} (ok : HostOk s.machine)
    (action : System.step native input s = some s') : s.host.nextLink ≤ s'.host.nextLink := by
  cases step_moved ok action with
  | mounted id link rec taken registered =>
      rw [show s'.host.nextLink = _ from taken.nextLink]
      exact Nat.le_succ _
  | unmounted q link released registered => exact Nat.le_of_eq released.nextLink.symm
  | carried records carried => exact carried.nextLink

theorem step_rests {native : ShardOps ν ς} {input : Input ν ς} {s s' : System ν ς} {p : Pointer} {link : Link}
    (ok : HostOk s.machine) (mounted : s.host.heap p = some link) (alone : input.revives ≠ some link.id)
    (action : System.step native input s = some s') : Rests p s s' := by
  intro retired
  have quarantined := retired link mounted
  cases step_fate ok mounted (input.comesTo_ne ok mounted alone) action with
  | released gone count =>
      refine ⟨?_, count⟩
      intro link' found
      rw [gone] at found
      cases found
  | spared link₁ spared count faded =>
      refine ⟨?_, count⟩
      intro link' found
      cases found.symm.trans spared.found
      exact spared.life.2.2.trans quarantined
  | supervised todo door v policy phase cached needy recovered =>
      simp [Link.needy, Link.detected, quarantined] at needy

theorem step_spent {native : ShardOps ν ς} {input : Input ν ς} {s s' : System ν ς} {p : Pointer} {id : ShardId}
    {policy : Value} (alone : input.revives ≠ some id) (spent : Spent p id policy s)
    (action : System.step native input s = some s') : Spent p id policy s' ∧ Rests p s s' := by
  have ok := step_ok spent.ok action
  have old := Nat.lt_of_lt_of_le spent.old (step_nextLink spent.ok action)
  cases mounted : s.host.heap p with
  | none =>
      obtain ⟨gone, count⟩ := gone_stays spent.ok spent.old mounted action
      have none : ∀ link, s'.host.heap p ≠ some link := by
        intro link found
        rw [gone] at found
        cases found
      exact ⟨⟨ok, old, by rw [count]; exact spent.within, fun link found => absurd found (none link)⟩,
        fun _ => ⟨fun link found => absurd found (none link), count⟩⟩
  | some link =>
      obtain ⟨rfl, declared, watched⟩ := spent.link link mounted
      refine ⟨⟨ok, old, ?_, ?_⟩, step_rests spent.ok mounted alone action⟩
      · cases step_fate spent.ok mounted (input.comesTo_ne spent.ok mounted alone) action with
        | released gone count =>
            rw [count]
            exact spent.within
        | spared link₁ spared count faded =>
            rw [count]
            exact spent.within
        | supervised todo door v policy' phase cached needy recovered =>
            obtain ⟨link', found, ruled, after⟩ := recovered_watched mounted cached watched recovered
            exact after.within policy (by rw [ruled]; exact declared)
      · intro link' found
        obtain ⟨same, policyValue, after⟩ := step_watched spent.ok mounted alone action watched found
        exact ⟨same, policyValue.trans declared, after⟩

/-- A turn of supervision, with the child that it tries to spawn. -/
inductive Judged (p : Pointer) (link : Link) (policy : Value) (answers : SpawnAnswers) (s s' : System ν ς) : Prop where
  | calm (calm : link.needy = false) (same : s'.host = { s.host with answers })
  | spent (link' : Link) (needy : link.needy = true) (found : s'.host.heap p = some link')
      (exhausted : s.bus.knows link.id → (maxReloads policy).toNat ≤ s.host.respawns.count p)
      (respawns : s'.host.respawns = s.host.respawns) (quarantined : link'.quarantined = true)
  | tried (link' : Link) (needy : link.needy = true) (found : s'.host.heap p = some link')
      (left : s.host.respawns.count p < (maxReloads policy).toNat)
      (respawns : s'.host.respawns = s.host.respawns ++ [p])
      (quarantined : link'.quarantined =
        !(respawn s.host.forceEntryFailure answers (teardownChild link.mourned).1).2.2)

theorem supervise_judged {native : ShardOps ν ς} {s s' : System ν ς} {answers : SpawnAnswers} {p : Pointer}
    {todo : List Pointer} {link : Link} {policy : Value} (ok : HostOk s.machine)
    (mounted : s.host.heap p = some link) (declared : link.policyValue = some policy) (watched : Watched p link s)
    (phase : s.phase = .supervising (p :: todo)) (action : System.step native (.supervise answers) s = some s') :
    Judged p link policy answers s s' := by
  obtain ⟨door, v, policy', cached⟩ := ok.cached p link mounted
  cases declared.symm.trans cached.policyValue
  obtain ⟨_, _, outcome⟩ := supervise_turn ok action phase mounted cached
  have begun := stricken_host (w := { s.world with env := { s.host with answers } }) mounted
  split at outcome
  · rename_i needy
    cases outcome with
    | spent link' ruled buried exhausted bus events revived host =>
        obtain ⟨calls, host⟩ := host
        refine .spent link' needy ?_ ?_ ?_ buried.quarantined
        · rw [show s'.host = _ from host]
          exact put_heap _ _ _
        · intro known
          obtain ⟨rec, found⟩ := Option.isSome_iff_exists.mp known
          obtain ⟨rec', found', dulled⟩ :=
            stricken_keeps p link (w := { s.world with env := { s.host with answers } }) found
          have none := exhausted rec' (by rw [link.mourned_same.1]; exact found')
          rw [dulled.reloadsUsed, watched.spent rec found] at none
          omega
        · rw [show s'.host = _ from host, begun]
          rfl
    | tried link' ruled result rec found left bus events revived host spawned =>
        obtain ⟨calls, host⟩ := host
        rw [link.mourned_same.1] at found
        obtain ⟨rec₀, found₀, dulled⟩ :=
          stricken_faded p link { s.world with env := { s.host with answers } } link.id rec found
        rw [dulled.reloadsUsed, watched.spent rec₀ found₀] at left
        refine .tried link' needy ?_ (by omega) ?_ ?_
        · rw [show s'.host = _ from host]
          exact put_heap _ _ _
        · rw [show s'.host = _ from host, begun]
          rfl
        · rw [begun] at spawned
          exact spawned
  · rename_i calm
    refine .calm (by simpa using calm) ?_
    exact congrArg World.env outcome

theorem known_always {native : ShardOps ν ς} {host : Host ς} {inputs : List (Input ν ς)} {s : System ν ς}
    (run : Reaches native (.start host) inputs s) {p : Pointer} {link : Link} (mounted : s.host.heap p = some link)
    (kept : ∀ input ∈ inputs, input.unregisters ≠ some link.id) : s.bus.knows link.id := by
  induction run generalizing link with
  | nil => cases mounted
  | snoc run action ih =>
      rename_i mid s' before input
      have ok := host_ok run
      have moved := step_moved ok action
      cases earlier : mid.host.heap p with
      | none =>
          obtain ⟨_, name, soPath, grant, answers, id, rec, _, taken⟩ := moved.new earlier mounted
          rw [Switchboard.knows, taken.find_at ok.records, if_pos taken.link_id]
          rfl
      | some link₀ =>
          have same := (moved.same ok earlier mounted).id
          have known : mid.bus.knows link₀.id := by
            refine ih earlier ?_
            intro input hi
            rw [← same]
            exact kept input (by simp [hi])
          rw [same]
          have noticed := step_noticed ok action link₀.id
          cases step_stepped ok action with
          | unmounted q gone released registered =>
              have different : p ≠ q := by
                rintro rfl
                rw [released.heap_at, if_pos rfl] at mounted
                cases mounted
              obtain ⟨rec, found⟩ := Option.isSome_iff_exists.mp known
              have apart : some gone.id ≠ some link₀.id := by
                intro equal
                exact different (ok.apart_ids earlier released.mounted (Option.some.inj equal) found)
              have left := (unregisterShard_told link₀.id gone.id mid.world).known apart known
              rw [show s'.bus = _ from released.bus]
              exact left
          | aside h =>
              rw [Switchboard.knows, Switchboard.find, h.shards]
              exact known
          | _ =>
              apply noticed.known
              · intro name off
                cases off
              · rw [← same]
                exact kept _ (by simp)
              · exact known

theorem supervision_is_bounded {native : ShardOps ν ς} {host : Host ς} {before after : List (Input ν ς)}
    {s s' : System ν ς} (run : Reaches native (.start host) before s) {p : Pointer} {link : Link} {policy : Value}
    (mounted : s.host.heap p = some link) (declared : link.policyValue = some policy)
    (later : Reaches native s after s') (alone : ∀ input ∈ before ++ after, input.revives ≠ some link.id) :
    s'.host.respawns.count p ≤ (max (maxReloads policy) 0).toNat ∧
    s.world.deaths link.id = tally (System.step native) (notices link.id) before (.start host) ∧
    ((∀ input ∈ before, input.unregisters ≠ some link.id) → s.bus.knows link.id) ∧
    (∀ todo answers s₁, s.phase = .supervising (p :: todo) →
      System.step native (.supervise answers) s = some s₁ → Judged p link policy answers s s₁) ∧
    (link.quarantined = true → s'.host.respawns.count p = s.host.respawns.count p ∧
      ∀ link', s'.host.heap p = some link' → link'.quarantined = true ∧ link'.channel = none) := by
  have ok := host_ok run
  have watched := watched_always run mounted fun input hi => alone input (by simp [hi])
  have start : Spent p link.id policy s := by
    refine ⟨ok, ok.below p link mounted, watched.within policy declared, ?_⟩
    intro link' found
    cases mounted.symm.trans found
    exact ⟨rfl, declared, watched⟩
  have rests : ∀ s : System ν ς, Rests p s s := fun _ retired => ⟨retired, rfl⟩
  have allowed : ∀ input ∈ after, input.revives ≠ some link.id := fun input hi => alone input (by simp [hi])
  obtain ⟨final, rest⟩ := later.relates (I := Spent p link.id policy) (R := Rests p) rests Rests.trans
    (fun _ _ _ => step_spent) allowed start
  refine ⟨?_, ?_, known_always run mounted, ?_, ?_⟩
  · have within := final.within
    omega
  · have counted := deaths_noticed (HostOk.start host) run link.id
    exact counted.trans (Nat.zero_add _)
  · intro todo answers s₁ phase action
    exact supervise_judged ok mounted declared watched phase action
  · intro quarantined
    have retired : Retired p s := by
      intro link' found
      cases mounted.symm.trans found
      exact quarantined
    obtain ⟨retired, count⟩ := rest retired
    refine ⟨count, ?_⟩
    intro link' found
    exact ⟨retired link' found, (final.link link' found).2.2.buried (retired link' found)⟩

-- the child is spawned again, dies again and is given up
def pingDemise : List (Input Unit Unit) :=
  pingCrash ++ [.supervise pingSpawn, .finish, .step, .drain [] [.data []], .pump, .bus .turn {}, .supervise pingSpawn]

theorem supervision_is_bounded_ping : ∃ s s' link policy, Reaches pingOps pingStart pingDemise s ∧
    s.host.heap 0 = some link ∧ link.policyValue = some policy ∧ maxReloads policy = 1 ∧ link.quarantined = true ∧
    Reaches pingOps s [.finish, .step] s' ∧ s.world.deaths link.id = 2 ∧ s.host.respawns.count 0 = 1 ∧
    s'.host.respawns.count 0 ≤ 1 ∧ ∀ link', s'.host.heap 0 = some link' → link'.quarantined = true := by
  have evaluated : ((exec (System.step pingOps) pingDemise pingStart).bind fun s =>
      (exec (System.step pingOps) [.finish, .step] s).bind fun _ => (s.host.heap 0).bind fun link =>
        link.policyValue.map fun policy => decide (maxReloads policy = 1 ∧ link.quarantined = true ∧
          s.world.deaths link.id = 2 ∧ s.host.respawns.count 0 = 1)) = some true := by
    decide +kernel
  obtain ⟨s, reached, evaluated⟩ := Option.bind_eq_some_iff.mp evaluated
  obtain ⟨s', continued, evaluated⟩ := Option.bind_eq_some_iff.mp evaluated
  obtain ⟨link, mounted, evaluated⟩ := Option.bind_eq_some_iff.mp evaluated
  obtain ⟨policy, declared, evaluated⟩ := Option.map_eq_some_iff.mp evaluated
  obtain ⟨one, quarantined, deaths, count⟩ := of_decide_eq_true evaluated
  have run := Run.of_exec reached
  have later := Run.of_exec continued
  have alone : ∀ input ∈ pingDemise ++ [.finish, .step], input.revives ≠ some link.id := by
    intro input hi
    have each : ∀ input ∈ pingDemise ++ [.finish, .step], input.revives = none := by
      simp [pingDemise, pingCrash, pingMount, Input.revives, Sb.Input.revives]
    rw [each input hi]
    exact nofun
  obtain ⟨bounded, _, _, _, final⟩ := supervision_is_bounded run mounted declared later alone
  rw [one] at bounded
  exact ⟨s, s', link, policy, run, mounted, declared, one, quarantined, later, deaths, count, bounded,
    fun link' found => ((final quarantined).2 link' found).1⟩

end Zen.Isolation
