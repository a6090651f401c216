import Verdix.Lib.Ipaddress

/-!
# The Suricata configuration

The network groups of `SuricataConfig`, and the groups an address belongs to.
-/

namespace Verdix

open Ipaddress

structure SuricataConfig where
  homeNet : List Network
  serverGroups : List (String × List Network)
  /-- `read_config` keeps `HOME_NET` out of the other groups. -/
  homeNetApart : ∀ group ∈ serverGroups, group.1 ≠ "HOME_NET"

namespace SuricataConfig

/-- Without server groups there is nothing to keep apart. -/
theorem homeNetApart_nil : ∀ group ∈ ([] : List (String × List Network)), group.1 ≠ "HOME_NET" :=
  List.forall_mem_nil _

/-- `membership_for_ip`. -/
def membershipForIp (config : SuricataConfig) (ip : Json) : List String :=
  match ipAddress ip with
  | none => []
  | some addr =>
    (if config.homeNet.any (·.contains addr) then ["HOME_NET"] else ["EXTERNAL_NET"]) ++
      (config.serverGroups.filter fun group => group.2.any (·.contains addr)).map Prod.fst

/-- The value is an address in `HOME_NET`. -/
def InHomeNet (config : SuricataConfig) (ip : Json) : Prop :=
  ∃ addr, ipAddress ip = some addr ∧ ∃ net ∈ config.homeNet, net.Covers addr

theorem homeNet_mem_membershipForIp {config : SuricataConfig} {ip : Json} :
    "HOME_NET" ∈ config.membershipForIp ip ↔ config.InHomeNet ip := by
  rw [membershipForIp, InHomeNet]
  cases hip : ipAddress ip with
  | none => simp
  | some addr =>
    have hgroups : "HOME_NET" ∉ (config.serverGroups.filter fun group =>
        group.2.any (·.contains addr)).map Prod.fst := by
      intro h
      obtain ⟨group, hgroup, hname⟩ := List.mem_map.mp h
      exact config.homeNetApart group (List.mem_filter.mp hgroup).1 hname
    have hany : (config.homeNet.any (·.contains addr)) = true ↔
        ∃ net ∈ config.homeNet, net.Covers addr := by
      simp [List.any_eq_true, Network.contains_iff]
    simp only [List.mem_append, hgroups, or_false, Option.some.injEq, exists_eq_left']
    rw [← hany]
    split <;> simp_all

end SuricataConfig

end Verdix
