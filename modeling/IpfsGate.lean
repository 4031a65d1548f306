import IpfsGate.Correspondence
import IpfsGate.PledgeOrder
import IpfsGate.Lib.Rely
import IpfsGate.Lib.History
import IpfsGate.Server.Guardians
import IpfsGate.Server.Kills
import IpfsGate.Server.Claimless
import IpfsGate.Server.Deletes
import IpfsGate.Server.Settlement
import IpfsGate.Server.Uploads
import IpfsGate.Server.Replay
import IpfsGate.Server.Effects
import IpfsGate.Server.Authority
import IpfsGate.Server.Prices
import IpfsGate.Server.Leftovers
import IpfsGate.Server.Bytes
import IpfsGate.Server.AccountQuota
import IpfsGate.Finality
import IpfsGate.Server.Disk
import IpfsGate.Lib.Crash
import IpfsGate.Server.Commits
import IpfsGate.Server.Recovery
import IpfsGate.Server.TopUps
import IpfsGate.Lib.Ranks
import IpfsGate.Lib.Script
import IpfsGate.Lib.Text
import IpfsGate.Lib.Notes
import IpfsGate.Lib.Double
import IpfsGate.Lib.Solo
import IpfsGate.Lib.Extend
import IpfsGate.Range
import IpfsGate.RangeContract
import IpfsGate.Server.Gateway
import IpfsGate.Server.Rendering
import IpfsGate.Server.Envelopes
import IpfsGate.Migrations.Files
import IpfsGate.Migrations.Versions
import IpfsGate.Migrations.Rebuild
import IpfsGate.Migrations.Restart
import IpfsGate.Migrations.PledgeQueue
import IpfsGate.Sweeping
import IpfsGate.Server.Policies
import IpfsGate.Server.Orders
import IpfsGate.Server.Releases
import IpfsGate.Server.Consents
import IpfsGate.Server.Escrows
import IpfsGate.Server.Quotes
import IpfsGate.Server.Repricing
import IpfsGate.Server.Retries
import IpfsGate.Server.Cleanups
import IpfsGate.Server.Timers
import IpfsGate.Server.Targets
import IpfsGate.Server.Transfers
import IpfsGate.Server.Unlisted
import IpfsGate.Server.RefundCurve
import IpfsGate.ModerationLog
import IpfsGate.Server.Imports
import IpfsGate.Server.Uploadable
import IpfsGate.Lib.Separated
import IpfsGate.Numerals
import IpfsGate.Lib.Utf16
import IpfsGate.EnvelopeSig
import IpfsGate.Server.Messages
import IpfsGate.Client.RevealSig
import IpfsGate.Json
import IpfsGate.Lib.Base64
import IpfsGate.Lib.Utf8
import IpfsGate.Client.InnerBlob
import IpfsGate.Client.RevealLink
import IpfsGate.Reports.Attempts
import IpfsGate.Reports.Lives
import IpfsGate.Reports.View
import IpfsGate.Lib.Silent
import IpfsGate.Reports.BoxClient
import IpfsGate.Reports.Delivery
import IpfsGate.Server.Lookups
import IpfsGate.Server.Visits
import IpfsGate.Client.Paying
import IpfsGate.Client.Quoting
import IpfsGate.Server.AuditTrail
import IpfsGate.Lib.Turnstile
import IpfsGate.Server.Limiters
import IpfsGate.Server.Overdue
