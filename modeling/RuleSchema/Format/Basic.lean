import RuleSchema.Config.Basic
import RuleSchema.Format.Calendar
import RuleSchema.Format.Network
/-! Formats of texts by name. A name without a rule holds for every text. -/
namespace RuleSchema.Format

/-- Hexadecimal digits in groups of 8, 4, 4, 4 and 12. -/
def isUuid (s : String) : Bool :=
  let groups := Text.fieldChars '-' s.toList
  groups.map List.length == [8, 4, 4, 4, 12] && groups.all fun g => g.all isHexadecimal

/-- Whether a text has a format. The switch of dates chooses between two rules that are the
same; identifiers are looked at only if their switch is on. Any other name holds for every text:
the rules a validator may have for more names, as for `uri` and `regex`, are left out. -/
def holds (switches : FormatSwitches) (format value : String) : Bool :=
  match format with
  | "uuid" => !switches.uuid || isUuid value
  | "date" => isDate value
  | "date-time" => isDateTime value
  | "time" => isTime value
  | "email" => isEmail value
  | "hostname" => isHostname value
  | "ipv4" => isIpv4 value
  | "ipv6" => isIpv6 value
  | _ => true

end RuleSchema.Format
