import DealerPay.Text.Blank
import DealerPay.Text.Digit
import DealerPay.Text.Quoted
import DealerPay.Decimal.Arithmetic
import DealerPay.Decimal.Numeral
import DealerPay.Binary64
import DealerPay.Json.Reader
import DealerPay.Json.Printer
import DealerPay.Reading
import DealerPay.Calendar
import DealerPay.Rule.Record
import DealerPay.Plan.Basic
import DealerPay.Period
import DealerPay.Breakdown
import DealerPay.Pay.Preview
import DealerPay.Pay.Projection
import DealerPay.Pay.Milestone
import DealerPay.Plan.Draft
import DealerPay.Pay.Rollup
import DealerPay.Service.Settings
import DealerPay.Service.Answer
import DealerPay.Proofs.Steps
import DealerPay.Proofs.Totals
import DealerPay.Proofs.Exact.Evaluation
import DealerPay.Proofs.Reconciliation
import DealerPay.Proofs.Preview
import DealerPay.Proofs.Service.Agreement
import DealerPay.Proofs.AddOn
import DealerPay.Proofs.Layout
import DealerPay.Proofs.Reordering
import DealerPay.Proofs.Relevance
import DealerPay.Proofs.Growth
import DealerPay.Proofs.Refusal
import DealerPay.Proofs.Rollup
import DealerPay.Proofs.Idle
import DealerPay.Proofs.Brackets
import DealerPay.Proofs.Guarantee
import DealerPay.Proofs.Editing
import DealerPay.Proofs.Moving
import DealerPay.Proofs.Revision
import DealerPay.Proofs.Aggregates
import DealerPay.Proofs.Raise
import DealerPay.Proofs.Projection
import DealerPay.Proofs.TierOrder
import DealerPay.Proofs.Retroactive
import DealerPay.Proofs.Milestones
import DealerPay.Proofs.PlainText
import DealerPay.Proofs.NearestCent
import DealerPay.Proofs.Products
import DealerPay.Proofs.DollarText
