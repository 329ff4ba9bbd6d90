import IllusionEpt.Entry
import IllusionEpt.Address
import IllusionEpt.Ept
import IllusionEpt.Eptp
import IllusionEpt.BuildIdentity
import IllusionEpt.Walk
import IllusionEpt.IdentityMap
import IllusionEpt.Fields
import IllusionEpt.Guards
import IllusionEpt.Reachable
import IllusionEpt.Rebuild
import IllusionEpt.Contract
import IllusionEpt.WellFormed
import IllusionEpt.Violation
import IllusionEpt.Hook
import IllusionEpt.Driver
