import CorazaNginx.Core.Prog
import CorazaNginx.Core.Parts
import CorazaNginx.Model.Nginx
import CorazaNginx.Model.World
import CorazaNginx.Model.BodyFilter
import CorazaNginx.Model.HeaderFilter
import CorazaNginx.Model.RequestPhases
import CorazaNginx.Spec.Stretch
import CorazaNginx.Response.Buffers
import CorazaNginx.Response.Ending
import CorazaNginx.Response.Inspect
import CorazaNginx.Response.Outcome
import CorazaNginx.Core.DelayLine
import CorazaNginx.Response.Run
import CorazaNginx.Response.FileRange
import CorazaNginx.Response.Delivery
import CorazaNginx.Response.Shown
import CorazaNginx.Response.HeaderOutcome
import CorazaNginx.Response.HeaderList
import CorazaNginx.Response.Undelayed
import CorazaNginx.Response.HeaderOnly
import CorazaNginx.Response.Inspection
import CorazaNginx.Request.Heeding
import CorazaNginx.Enforcement
import CorazaNginx.Request.PhaseTwo
import CorazaNginx.Request.Submission
import CorazaNginx.Request.BodyDelivery
import CorazaNginx.Request.HeaderSubmission
import CorazaNginx.FailClosed
import CorazaNginx.Redirect
import CorazaNginx.EntityHeaders
import CorazaNginx.ErrorPage
import CorazaNginx.Core.Wire
import CorazaNginx.Model.Packing
import CorazaNginx.Packing
import CorazaNginx.Model.RulesScan
import CorazaNginx.Model.Config
import CorazaNginx.Config.Reading
import CorazaNginx.Config.Inheritance
import CorazaNginx.Core.Sharing
import CorazaNginx.Model.Waf
import CorazaNginx.Config.WafSharing
import CorazaNginx.Response.Queue
import CorazaNginx.Response.Accounting
import CorazaNginx.Config.Ruleless
import CorazaNginx.Core.History
import CorazaNginx.Model.Lifecycle
import CorazaNginx.Lifecycle.Turns
import CorazaNginx.Lifecycle.Ledger
import CorazaNginx.Lifecycle.Logging
import CorazaNginx.Lifecycle.Handles
import CorazaNginx.Lifecycle.Order
import CorazaNginx.Core.Words
import CorazaNginx.Spec.SecLang
import CorazaNginx.Config.Scanning
import CorazaNginx.Config.Directives
import CorazaNginx.RequestHeaders
import CorazaNginx.Response.HeaderLengths
import CorazaNginx.Model.Loader
import CorazaNginx.Loading
import CorazaNginx.Transactions
import CorazaNginx.Core.Interleave
import CorazaNginx.Lifecycle.Disposal
import CorazaNginx.Serving
import CorazaNginx.Core.Gate
import CorazaNginx.Response.Gate
import CorazaNginx.Lifecycle.Blocks
import CorazaNginx.Moves
import CorazaNginx.RequestFrame
import CorazaNginx.Core.Awaiting
import CorazaNginx.Request.Suspension
import CorazaNginx.Core.Telling
import CorazaNginx.Lifecycle.Telling
import CorazaNginx.Request.Judgement
import CorazaNginx.Response.Judgement
import CorazaNginx.Finality
