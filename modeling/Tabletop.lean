import Tabletop.Main
import Tabletop.Part.Step
import Tabletop.Proofs.Checked.Evaluation
import Tabletop.Proofs.Group.Canonical
import Tabletop.Proofs.Group.Checks
import Tabletop.Proofs.Group.CriticalDamage
import Tabletop.Proofs.Group.Doubled
import Tabletop.Proofs.Group.Missed
import Tabletop.Proofs.Group.Resubmitted
import Tabletop.Proofs.Group.Runs
import Tabletop.Proofs.Group.Totals
import Tabletop.Proofs.Group.Unclaimed
import Tabletop.Proofs.Group.Veiled
import Tabletop.Proofs.Group.WellFormed
import Tabletop.Proofs.Report.Faithful
import Tabletop.Proofs.Report.Tiers
import Tabletop.Proofs.Roll.Attack
import Tabletop.Proofs.Roll.Extremes
import Tabletop.Proofs.Roll.Fair
import Tabletop.Proofs.Roll.Fixed
import Tabletop.Proofs.Roll.Labels
import Tabletop.Proofs.Roll.Scripted
import Tabletop.Proofs.Roll.Shown
import Tabletop.Proofs.Session.Refused
import Tabletop.Proofs.System.Monotone
import Tabletop.Proofs.System.Overruled
import Tabletop.Proofs.Token.Decoded
import Tabletop.Proofs.Token.Tiling
import Tabletop.Roller.Script
import Tabletop.Roller.Words
import Tabletop.Settings.Stored
